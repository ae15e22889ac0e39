import Renop.NpmRevisions

/-!
# Version locks

A lock on a version is checked by every call in its own way, and a rollback does not check it at all: it takes back what
its approval has published whatever is locked by then. All other calls freeze the version, its row and the tags that
point at it, and a lock on one version holds up no call that leaves the version and its tags alone.
-/

namespace Renop.Npm

open Sql Cargo

/-- A lock on the version, on its package or on the team. -/
def Locked (c : Catalog) (v : String) : Prop := c.teamLocked ∨ "" ∈ c.locks ∨ v ∈ c.locks

structure Frozen (v : String) (c c' : Catalog) : Prop where
  row : c'.versions.find? v = c.versions.find? v
  tags : ∀ k, (c'.tags.find? k).map (·.version) = some v ↔ (c.tags.find? k).map (·.version) = some v

/-- The sanitizer does not cut the tag off: the check of a lock and the table spell it alike. -/
def Uncut (text : Text) (tag : String) : Prop := text.toLower (text.trimSpace tag) = tagKey text tag

/-- What the handlers see to, and what a rollback has read from the tables. -/
def Whole (text : Text) : Call → Prop
  | .publish pkg version tags username => Spelled text (.publish pkg version tags username) ∧ ∀ q ∈ tags.rows,
    Uncut text q.1
  | .setTag tag .. => Tagged text tag ∧ Uncut text tag
  | .deleteTag tag .. => Tagged text tag ∧ Uncut text (tagKey text tag)
  | .rollback _ _ previousTags => TagsSpelled text previousTags.rows
  | call => Spelled text call

/-- A rollback takes back another version and restores no tag of `v` that has moved; a packument spells `v` and its tags
as the tables do. -/
def Leaves (text : Text) (v : String) (c : Catalog) : Call → Prop
  | .rollback version _ previousTags => versionKey text version ≠ v ∧
    ∀ q ∈ previousTags.rows, q.2 = v ↔ (c.tags.find? q.1).map (·.version) = some v
  | .packument _ _ deprecations tags _ => (∀ q ∈ deprecations.rows, versionKey text q.1 = v → q.1 = v) ∧
    ∀ q ∈ tags.rows, (c.tags.find? (tagKey text q.1)).map (·.version) = some v → tagKey text q.1 = q.1
  | _ => True

/-- The call is about other versions than `v`. A packument repeats the deprecation of `v`, and spells its tags as the
table does; what is done to the package is done to every version. -/
def Others (text : Text) (v : String) (c : Catalog) : Call → Prop
  | .publish _ version _ _ => versionKey text version.version ≠ v
  | .setDeprecated version .. => versionKey text version ≠ v
  | .unpublish version .. => versionKey text version ≠ v
  | .packument _ _ deprecations tags _ =>
    (∀ row ∈ c.versions.find? v, ∀ q ∈ deprecations.find? v, text.trimSpace q.2 = row.deprecated) ∧
      ∀ q ∈ tags.rows, tagKey text q.1 = q.1
  | .mirror .. => False
  | .archive .. => False
  | .delete .. => False
  | _ => True

/-- Calls that succeed, and locks that are set and taken off between them. -/
inductive LockRun (text : Text) (semver : Semver) (P : Catalog → Call → Prop) : Catalog → Catalog → Prop
  | refl (c : Catalog) : LockRun text semver P c c
  | call {c₀ c c' : Catalog} (out : Outside) (call : Call) (hrun : LockRun text semver P c₀ c) (hp : P c call)
      (h : exec text semver out c call = .ok c') : LockRun text semver P c₀ c'
  | locks {c₀ c : Catalog} (locks : List String) (teamLocked : Bool) (hrun : LockRun text semver P c₀ c) :
    LockRun text semver P c₀ { c with locks := locks, teamLocked := teamLocked }

def Catalog.unlock (c : Catalog) (v : String) : Catalog := { c with locks := c.locks.filter (· ≠ v) }

variable {text : Text} {semver : Semver} {out : Outside} {c c' c₀ c₁ : Catalog} {call : Call} {v : String}

/-! ### Deprecations that are clean -/

theorem truncateUTF8_subset (l : List Char) (n : Nat) : truncateUTF8 l n ⊆ l := by
  induction l generalizing n with
  | nil => exact List.nil_subset _
  | cons a l ih =>
    unfold truncateUTF8
    split
    · exact List.cons_subset_cons a (ih _)
    · exact List.nil_subset _

theorem truncateUTF8_idem (l : List Char) (n : Nat) : truncateUTF8 (truncateUTF8 l n) n = truncateUTF8 l n := by
  induction l generalizing n with
  | nil => rfl
  | cons a l ih =>
    by_cases h : a.utf8Size ≤ n
    · simp only [truncateUTF8, h, if_true, ih]
    · simp only [truncateUTF8, h, if_false]

theorem sanitizeInputString_idem (s : String) {n : Nat} (hn : 0 < n) :
    sanitizeInputString (sanitizeInputString s n) n = sanitizeInputString s n := by
  simp only [sanitizeInputString, sanitizeControlBytes, if_pos hn, String.toList_ofList]
  -- No control byte is left, and what was cut off once fits.
  rw [List.filter_eq_self.2 fun a ha => ?_, truncateUTF8_idem]
  exact (List.mem_filter.1 (truncateUTF8_subset _ n ha)).2

/-- A deprecation stays as it is when it is stored again. -/
def Clean (c : Catalog) : Prop := ∀ row ∈ c.versions.rows, sanitizeInputString row.deprecated 4000 = row.deprecated

theorem Clean.of (h : Clean c) (hrows : ∀ row ∈ c'.versions.rows,
    (∃ old ∈ c.versions.rows, row.deprecated = old.deprecated) ∨ ∃ s, row.deprecated = sanitizeInputString s 4000) :
    Clean c' := by
  intro row hrow
  rcases hrows row hrow with ⟨old, hold, heq⟩ | ⟨s, heq⟩
  · rw [heq]
    exact h old hold
  · rw [heq]
    exact sanitizeInputString_idem s (by decide)

theorem deprecateVersion_clean {version deprecated : String} (hc : Clean c)
    (h : deprecateVersion text version deprecated c = .ok c') : Clean c' := by
  obtain ⟨-, h⟩ := require_bind_ok.1 h
  cases h
  refine hc.of fun row hrow => ?_
  obtain ⟨old, hold, rfl⟩ := List.mem_map.1 hrow
  split
  · exact .inr ⟨_, rfl⟩
  · exact .inl ⟨old, hold, rfl⟩

def CleanRows (versions : Table NPMVersion.version) : Prop :=
  ∀ row ∈ versions.rows, sanitizeInputString row.deprecated 4000 = row.deprecated

theorem CleanRows.refresh {versions : Table NPMVersion.version} (version : NPMVersion) (h : CleanRows versions) :
    CleanRows (refreshVersion text versions version) := by
  have hput : ∀ old : NPMVersion, CleanRows (versions.put (version.refreshed text old)) := by
    intro old row hrow
    rcases Table.mem_put.1 hrow with rfl | ⟨hrow, -⟩
    · have hdeprecated : (version.refreshed text old).deprecated = sanitizeInputString version.deprecated 4000 := rfl
      rw [hdeprecated]
      exact sanitizeInputString_idem version.deprecated (by decide)
    · exact h row hrow
  unfold refreshVersion
  split
  · split
    · split
      · exact hput _
      · exact h
    · exact hput _
  · exact h

theorem CleanRows.refreshAll {versions : Table NPMVersion.version} (l : List NPMVersion) (h : CleanRows versions) :
    CleanRows (l.foldl (refreshVersion text) versions) := by
  induction l generalizing versions with
  | nil => exact h
  | cons version l ih =>
    rw [List.foldl_cons]
    exact ih (h.refresh version)

theorem exec_clean (hc : Clean c) (h : exec text semver out c call = .ok c') : Clean c' := by
  cases call with
  | publish pkg version tags username =>
    obtain ⟨p, versions, c₁, -, -, -, -, -, hinsert, hloop, rfl⟩ := recordNPMPublication_ok h
    refine hc.of fun row hrow => ?_
    rw [updatePackage_versions, (recordTags_ok hloop).versions] at hrow
    rcases List.mem_append.1 ((Table.insert_ok hinsert).2 ▸ hrow) with hrow | hrow
    · exact .inl ⟨row, hrow, rfl⟩
    · obtain rfl := List.mem_singleton.1 hrow
      exact .inr ⟨_, rfl⟩
  | rollback version previous previousTags =>
    obtain ⟨p, c₁, -, hset, rfl⟩ := rollbackNPMPublicationReview_ok h
    refine hc.of fun row hrow => .inl ⟨row, ?_, rfl⟩
    rw [updatePackage_versions, hset.versions] at hrow
    exact (List.mem_filter.1 hrow).1
  | mirror pkg versions tags =>
    obtain ⟨package, c₁, -, -, -, hset, rfl⟩ := recordNPMMirrorPublication_ok h
    intro row hrow
    rw [updatePackage_versions, hset.versions] at hrow
    have hstale : CleanRows (c.versions.update (fun v => if v.mirrored then { v with unpublished := true } else v)
        fun v => by split <;> rfl) := by
      intro row hrow
      obtain ⟨old, hold, rfl⟩ := List.mem_map.1 hrow
      split <;> exact hc old hold
    exact hstale.refreshAll versions row (List.mem_filter.1 hrow).1
  | setTag tag version actor expectedRevision now =>
    obtain ⟨p, c₁, -, -, -, hset, rfl⟩ := setNPMDistTag_ok h
    exact hc.of fun row hrow => .inl ⟨row, hset.versions ▸ hrow, rfl⟩
  | deleteTag tag actor expectedRevision now =>
    obtain ⟨p, c₁, -, -, rfl, rfl⟩ := deleteNPMDistTag_ok h
    exact hc
  | setDeprecated version deprecated actor expectedRevision now =>
    obtain ⟨p, c₁, -, -, hset, rfl⟩ := setNPMVersionDeprecated_ok h
    have hclean := deprecateVersion_clean hc hset
    exact hclean
  | packument actor expectedRevision deprecations tags now =>
    obtain ⟨p, c₁, c₂, -, -, hdeps, hloop, rfl⟩ := updateNPMPackument_ok h
    have hclean : Clean c₁ := foldlM_ok (fun _ b => Clean b) hdeps hc fun _ _ _ _ _ hb hstep =>
      deprecateVersion_clean hb hstep
    exact hclean.of fun row hrow => .inl ⟨row, (packumentTags_ok hloop).1.versions ▸ hrow, rfl⟩
  | unpublish version actor expectedRevision now =>
    obtain ⟨⟨_, path⟩, hcall, rfl⟩ := map_ok.1 h
    obtain ⟨p, c₁, c₂, -, -, hc₁, hlast, rfl⟩ := unpublishNPMVersion_ok hcall
    refine hc.of fun row hrow => .inl ?_
    have hrow : row ∈ c₁.versions.rows := by
      rcases hlast with ⟨-, rfl⟩ | ⟨-, -, hset⟩
      · exact hrow
      · exact hset.versions ▸ hrow
    rw [hc₁] at hrow
    obtain ⟨old, hold, rfl⟩ := List.mem_map.1 hrow
    refine ⟨old, hold, ?_⟩
    split <;> rfl
  | archive actor archived now =>
    obtain ⟨p, -, -, rfl⟩ := setNPMPackageArchived_ok h
    exact hc
  | delete actor expectedRevision now =>
    obtain ⟨⟨_, paths⟩, hcall, rfl⟩ := map_ok.1 h
    obtain ⟨p, c₁, -, -, rfl, rfl⟩ := deleteNPMPackage_ok hcall
    refine hc.of fun row hrow => ?_
    obtain ⟨old, hold, rfl⟩ := List.mem_map.1 hrow
    exact .inl ⟨old, hold, rfl⟩

/-! ### What every run keeps -/

structure Stored (text : Text) (c : Catalog) : Prop where
  tidy : Tidy text c
  spelled : TagsSpelled text (tagMap c.tags).rows
  clean : Clean c

theorem Fresh.stored (h : Fresh c) : Stored text c :=
  ⟨h.tidy, tagsSpelled_iff.2 (by simp [h.tags]), by simp [Clean, h.versions]⟩

theorem Whole.spelled (h : Whole text call) (hcall : ∀ version previous tags, call ≠ .rollback version previous tags) :
    Spelled text call := by
  cases call with
  | publish => exact h.1
  | rollback version previous previousTags => exact absurd rfl (hcall version previous previousTags)
  | setTag => exact h.1
  | deleteTag => trivial
  | _ => exact h

theorem exec_stored (hlatest : tagKey text "latest" = "latest") (hw : Whole text call) (hs : Stored text c)
    (h : exec text semver out c call = .ok c') : Stored text c' := by
  have hclean := exec_clean hs.clean h
  by_cases hcall : ∃ version previous tags, call = .rollback version previous tags
  · obtain ⟨version, previous, previousTags, rfl⟩ := hcall
    have hback : Tidy text c' ∧ (Consistent semver c → _) := rollback_keeps hs.tidy h
    refine ⟨hback.1, ?_, hclean⟩
    obtain ⟨_, c₁, -, hset, rfl⟩ := rollbackNPMPublicationReview_ok h
    refine hset.spelled (tagsSpelled_sub (fun t ht => (List.mem_filter.1 ht).1) hs.spelled) fun q hq => ?_
    obtain ⟨htag, hversion⟩ := hw q hq
    exact ⟨by rw [Tagged, htag, htag], by rw [Named, hversion, hversion]⟩
  · have hspelled := hw.spelled fun version previous tags heq => hcall ⟨version, previous, tags, heq⟩
    exact ⟨(exec_keeps hlatest hs.tidy hspelled.permitted h).1, exec_spelled hlatest hspelled hs.tidy hs.spelled h,
      hclean⟩

theorem lockRun_stored {P : Catalog → Call → Prop} (hlatest : tagKey text "latest" = "latest") (hs : Stored text c₀)
    (hP : ∀ c call, P c call → Whole text call) (hrun : LockRun text semver P c₀ c) : Stored text c := by
  induction hrun with
  | refl => exact hs
  | call out call _ hp h ih => exact exec_stored hlatest (hP _ _ hp) ih h
  | locks locks teamLocked _ ih => exact ⟨⟨ih.tidy.named, ih.tidy.mirrored, ih.tidy.absent⟩, ih.spelled, ih.clean⟩

/-! ### The checks -/

theorem ensureMutable_free {w : String} (h : ensureMutable text c w false = .ok ()) : ¬ Locked c w := by
  obtain ⟨-, h⟩ := require_bind_ok.1 h
  simpa [Locked] using h

theorem ensureMutable_all {w : String} (h : ensureMutable text c w true = .ok ()) (v : String) : ¬ Locked c v := by
  obtain ⟨-, h⟩ := require_bind_ok.1 h
  have hfree : ¬(c.teamLocked = true ∨ "" ∈ c.locks ∨ c.locks ≠ []) := by simpa using h
  rintro (hteam | hempty | hv)
  · exact hfree (.inl hteam)
  · exact hfree (.inr (.inl hempty))
  · exact hfree (.inr (.inr (List.ne_nil_of_mem hv)))

theorem npmTagVersion_eq {k : String} (hv : v ≠ "") :
    npmTagVersion c k = v ↔ (c.tags.find? k).map (·.version) = some v := by
  unfold npmTagVersion
  cases (c.tags.find? k).map (·.version) with
  | none => simp [Ne.symm hv]
  | some w => simp

theorem ensureNPMTagChange_free {tag version : String} (hv : v ≠ "") (hl : Locked c v)
    (h : ensureNPMTagChange text c tag version = .ok ()) :
    (npmTagVersion c (text.toLower (text.trimSpace tag)) = v ↔ version = v) := by
  simp only [ensureNPMTagChange] at h
  split at h
  · next hsame => rw [hsame]
  · constructor
    · intro heq
      rw [heq, if_pos hv] at h
      obtain ⟨u, hprevious, -⟩ := bind_ok.1 h
      exact absurd hl (ensureMutable_free hprevious)
    · rintro rfl
      rw [if_pos hv] at h
      split at h
      · obtain ⟨u, -, h⟩ := bind_ok.1 h
        exact absurd hl (ensureMutable_free h)
      · exact absurd hl (ensureMutable_free h)

theorem TagsSet.frozen {done : List (String × String)} (h : TagsSet text done c c')
    (hdone : ∀ q ∈ done, versionKey text q.2 = v ↔ (c.tags.find? (tagKey text q.1)).map (·.version) = some v)
    (k : String) :
    (c'.tags.find? k).map (·.version) = some v ↔ (c.tags.find? k).map (·.version) = some v := by
  rw [h.find k]
  split
  · next q hlast =>
    obtain ⟨hq, htag⟩ := List.mem_filter.1 (List.mem_of_getLast? hlast)
    have htag : tagKey text q.1 = k := by simpa using htag
    rw [Option.some.injEq, hdone q hq, htag]
  · rfl

theorem upsert_frozen {tag version : String} (hv : v ≠ "") (hl : Locked c v) (huncut : Uncut text tag)
    (hname : versionKey text version = version) (hcheck : ensureNPMTagChange text c tag version = .ok ())
    (h : TagsSet text [(tag, version)] c c') (k : String) :
    (c'.tags.find? k).map (·.version) = some v ↔ (c.tags.find? k).map (·.version) = some v := by
  refine h.frozen (fun q hq => ?_) k
  obtain rfl := List.mem_singleton.1 hq
  have hmove := ensureNPMTagChange_free hv hl hcheck
  rw [huncut, npmTagVersion_eq hv] at hmove
  rw [hname]
  exact hmove.symm

theorem recordTags_frozen {versionName : String} {now : Int} {tags : StringMap} (hv : v ≠ "") (hl : Locked c v)
    (huncut : ∀ q ∈ tags.rows, Uncut text q.1) (hname : versionKey text versionName = versionName)
    (h : recordTags text versionName now tags c = .ok c') (k : String) :
    (c'.tags.find? k).map (·.version) = some v ↔ (c.tags.find? k).map (·.version) = some v := by
  suffices hall : (Locked c' v ↔ Locked c v) ∧
      ∀ k, (c'.tags.find? k).map (·.version) = some v ↔ (c.tags.find? k).map (·.version) = some v from hall.2 k
  refine foldlM_ok (fun _ b => (Locked b v ↔ Locked c v) ∧
    ∀ k, (b.tags.find? k).map (·.version) = some v ↔ (c.tags.find? k).map (·.version) = some v) h
      ⟨.rfl, fun _ => .rfl⟩
    fun done q b b' hq hb hstep => ?_
  dsimp only at hstep
  split at hstep
  · cases hstep
    exact hb
  · next htag =>
    obtain ⟨u, hcheck, hput⟩ := bind_ok.1 hstep
    have htag : q.2 = versionName := not_not.1 htag
    have hset : TagsSet text [q] b b' := (TagsSet.nil b).put hput
    refine ⟨?_, fun k => (upsert_frozen hv (hb.1.2 hl) (huncut q hq) (htag ▸ hname) hcheck hset k).trans (hb.2 k)⟩
    rw [hset.same]
    exact hb.1

/-! ### One call -/

theorem Frozen.refl (v : String) (c : Catalog) : Frozen v c c := ⟨rfl, fun _ => .rfl⟩

theorem Frozen.trans {c₂ : Catalog} (h : Frozen v c c₁) (h' : Frozen v c₁ c₂) : Frozen v c c₂ :=
  ⟨h'.row.trans h.row, fun k => (h'.tags k).trans (h.tags k)⟩

theorem Frozen.updatePackage (h : Frozen v c c') (f : NPMPackage → NPMPackage) :
    Frozen v c (c'.updatePackage f) := ⟨h.row, h.tags⟩

theorem find?_update_of {versions : Table NPMVersion.version} {f : NPMVersion → NPMVersion}
    (hkey : ∀ row, (f row).version = row.version)
    (hf : ∀ row, row.version = v → f row = row) : (versions.update f hkey).find? v = versions.find? v := by
  rw [Table.find?_update]
  rcases Option.eq_none_or_eq_some (versions.find? v) with hfind | ⟨row, hfind⟩
  · rw [hfind, Option.map_none]
  · rw [hfind, Option.map_some, hf row (Table.find?_eq_some.1 hfind).2]

theorem delete_frozen {w : String} (hw : w ≠ v) (tags : Table DistTag.tag) (k : String) :
    (((tags.delete (·.version = w)).find? k).map (·.version) = some v ↔ (tags.find? k).map (·.version) = some v) := by
  rw [Table.find?_delete]
  rcases Option.eq_none_or_eq_some (tags.find? k) with hfind | ⟨t, hfind⟩
  · simp [hfind]
  · by_cases heq : t.version = w
    · simp [hfind, Option.filter, heq, hw]
    · simp [hfind, Option.filter, heq]

theorem entomb_named {w k : String} (h : published (c.entomb w) k = true) : ∃ row ∈ c.versions.rows, row.version = k := by
  obtain ⟨row, hrow, hk, -⟩ := published_iff.1 h
  obtain ⟨old, hold, rfl⟩ := List.mem_map.1 hrow
  refine ⟨old, hold, ?_⟩
  rw [← hk]
  split <;> rfl

theorem deprecateVersions_frozen {deprecations : StringMap} {row : NPMVersion} (hrow : c.versions.find? v = some row)
    (hclean : sanitizeInputString row.deprecated 4000 = row.deprecated)
    (hspelled : ∀ q ∈ deprecations.rows, versionKey text q.1 = v → q.1 = v)
    (hsame : ∀ q ∈ deprecations.find? v, text.trimSpace q.2 = row.deprecated)
    (h : deprecateVersions text deprecations c = .ok c') : c'.versions.find? v = some row := by
  refine foldlM_ok (fun _ b => b.versions.find? v = some row) h hrow fun _ q b b' hq hb hstep => ?_
  obtain ⟨-, hstep⟩ := require_bind_ok.1 hstep
  cases hstep
  dsimp only
  rw [Table.find?_update, hb, Option.map_some, Option.some.injEq]
  split
  · next hkey =>
    have hversion : versionKey text q.1 = v := by rw [← hkey, (Table.find?_eq_some.1 hb).2]
    have hq : deprecations.find? v = some q := Table.find?_eq_some.2 ⟨hq, hspelled q hq hversion⟩
    have hvalue : sanitized text q.2 4000 = row.deprecated := by
      rw [sanitized, hsame q hq, hclean]
    rw [hvalue]
  · rfl

theorem packument_frozen {actor : String} {expectedRevision : Int} {deprecations tags : StringMap} {now : Int}
    (hs : Stored text c) (hl : Locked c v) (hv : (c.versions.find? v).isSome)
    (hleaves : Leaves text v c (.packument actor expectedRevision deprecations tags now))
    (h : updateNPMPackument text out actor expectedRevision deprecations tags now c = .ok c') : Frozen v c c' := by
  obtain ⟨p, c₁, c₂, hopened, hlocks, hdeps, hloop, rfl⟩ := updateNPMPackument_ok h
  obtain ⟨row, hrow⟩ := Option.isSome_iff_exists.1 hv
  obtain ⟨hmem, hversion⟩ := Table.find?_eq_some.1 hrow
  have hname : versionKey text v = v ∧ v ≠ "" := hversion ▸ hs.tidy.named row hmem
  have hmine : lockedVersion c v = true := by
    have hpackage := ensureMutable_free hopened.mutable
    have hin : v ∈ c.locks := by
      rcases hl with hteam | hempty | hin
      · exact absurd (.inl hteam) hpackage
      · exact absurd (.inr (.inl hempty)) hpackage
      · exact hin
    simp [lockedVersion, hin, hv]
  obtain ⟨hdeprecations, hlocks⟩ := require_bind_ok.1 hlocks
  obtain ⟨haway, honto⟩ := require_bind_ok.1 hlocks
  have honto := require_ok.1 honto
  have hspelled := tagsSpelled_iff.1 hs.spelled
  have hrow₁ : c₁.versions.find? v = some row := by
    refine deprecateVersions_frozen hrow (hs.clean row hmem) hleaves.1 (fun q hq => ?_) hdeps
    exact hdeprecations row hmem (hversion ▸ hmine) q (hversion ▸ hq)
  obtain ⟨hset, hpub⟩ := packumentTags_ok hloop
  have htidy₁ := (deprecateVersions_ok hdeps).tidy hs.tidy hopened.package
  have hkey : ∀ q ∈ tags.rows, versionKey text q.2 = q.2 := by
    intro q hq
    obtain ⟨w, hw, hname, -⟩ := published_iff.1 (hpub q hq)
    exact hname ▸ (htidy₁.named w hw).1
  refine ⟨?_, fun k => ?_⟩
  · rw [updatePackage_versions, hset.versions, hrow]
    exact hrow₁
  rw [updatePackage_tags, hset.find k]
  constructor
  · intro hnew
    split at hnew
    · next q hlast =>
      obtain ⟨hq, htag⟩ := List.mem_filter.1 (List.mem_of_getLast? hlast)
      have htag : tagKey text q.1 = k := by simpa using htag
      have htarget : q.2 = v := (hkey q hq).symm.trans (Option.some.inj hnew)
      -- The check has found the target under the spelling of the packument, which is that of the table.
      have hfound := honto q hq (htarget ▸ hmine)
      rw [htarget, npmTagVersion_eq hname.2] at hfound
      obtain ⟨t, ht, -⟩ := Option.map_eq_some_iff.1 hfound
      obtain ⟨ht, hkey⟩ := Table.find?_eq_some.1 ht
      have hstored : tagKey text q.1 = q.1 := hkey ▸ (hspelled t ht).1
      rw [← htag, hstored]
      exact hfound
    · simp [Table.find?] at hnew
  · intro hold
    obtain ⟨t, ht, htarget⟩ := Option.map_eq_some_iff.1 hold
    obtain ⟨ht, hk⟩ := Table.find?_eq_some.1 ht
    have hget : StringMap.get tags k = v := by
      have hchecked := haway t ht (htarget ▸ hmine)
      rwa [hk, htarget] at hchecked
    have hin : (k, v) ∈ tags.rows := by
      have hin := stringMap_get (k := k) (m := tags) (by rw [hget]; exact hname.2)
      rwa [hget] at hin
    have hkk : tagKey text k = k := hk ▸ (hspelled t ht).1
    split
    · next q hlast =>
      -- Only one key of the packument is kept as this tag.
      obtain ⟨hq, htag⟩ := List.mem_filter.1 (List.mem_of_getLast? hlast)
      have htag : tagKey text q.1 = k := by simpa using htag
      have hsame : q.1 = k := (hleaves.2 q hq (htag.symm ▸ hold)).symm.trans htag
      have heq : q = (k, v) := tags.eq_of_key hq hin hsame
      rw [heq, hname.1]
    · next hnone =>
      have hempty := List.getLast?_eq_none_iff.1 hnone
      have hfilter : (k, v) ∈ tags.rows.filter fun p => tagKey text p.1 = k := List.mem_filter.2 ⟨hin, by simp [hkk]⟩
      rw [hempty] at hfilter
      cases hfilter

theorem exec_frozen (hlatest : tagKey text "latest" = "latest" ∧ Uncut text "latest") (hw : Whole text call)
    (hs : Stored text c) (hl : Locked c v) (hv : (c.versions.find? v).isSome) (hleaves : Leaves text v c call)
    (h : exec text semver out c call = .ok c') : Frozen v c c' := by
  have hne : v ≠ "" := by
    obtain ⟨row, hrow⟩ := Option.isSome_iff_exists.1 hv
    obtain ⟨hmem, rfl⟩ := Table.find?_eq_some.1 hrow
    exact hs.tidy.ne row hmem
  -- A version that a call changes is not locked.
  have hother : ∀ {w}, ensureMutable text c w false = .ok () → w ≠ v := by
    rintro w hmutable rfl
    exact ensureMutable_free hmutable hl
  cases call with
  | publish pkg version tags username =>
    obtain ⟨p, versions, c₁, -, -, hmutable, -, -, hinsert, hloop, rfl⟩ := recordNPMPublication_ok h
    refine ⟨?_, fun k => ?_⟩
    · rw [updatePackage_versions, (recordTags_ok hloop).versions]
      dsimp only
      rw [Table.find?_insert hinsert, if_neg fun heq => hother hmutable heq.symm]
    · rw [updatePackage_tags]
      exact recordTags_frozen (c := { c with versions := versions }) hne hl hw.2 hw.1.1 hloop k
  | rollback version previous previousTags =>
    obtain ⟨p, c₁, -, hset, rfl⟩ := rollbackNPMPublicationReview_ok h
    have hdropped : ∀ k, ((c.dropVersion (versionKey text version)).tags.find? k).map (·.version) = some v ↔
        (c.tags.find? k).map (·.version) = some v := fun k => delete_frozen hleaves.1 c.tags k
    refine ⟨?_, fun k => ?_⟩
    · rw [updatePackage_versions, hset.versions]
      exact Table.find?_delete_of fun row hrow => by simpa [hrow] using Ne.symm hleaves.1
    · rw [updatePackage_tags]
      refine (hset.frozen (fun q hq => ?_) k).trans (hdropped k)
      obtain ⟨htag, hversion⟩ := hw q hq
      rw [htag, hversion, hdropped]
      exact hleaves.2 q hq
  | mirror pkg versions tags =>
    obtain ⟨package, c₁, hmutable, -, -, -, rfl⟩ := recordNPMMirrorPublication_ok h
    exact absurd hl (ensureMutable_all hmutable v)
  | setTag tag version actor expectedRevision now =>
    obtain ⟨p, c₁, -, hpub, hcheck, hset, rfl⟩ := setNPMDistTag_ok h
    obtain ⟨row, hrow, rfl, -⟩ := published_iff.1 hpub
    have hfrozen : Frozen v c c₁ :=
      ⟨by rw [hset.versions], upsert_frozen hne hl hw.2 (hs.tidy.named row hrow).1 hcheck hset⟩
    exact hfrozen.updatePackage _
  | deleteTag tag actor expectedRevision now =>
    obtain ⟨p, c₁, -, hcheck, rfl, rfl⟩ := deleteNPMDistTag_ok h
    have hmove := ensureNPMTagChange_free hne hl hcheck
    rw [hw.2, hw.1, npmTagVersion_eq hne] at hmove
    refine ⟨rfl, fun k => ?_⟩
    rw [updatePackage_tags]
    dsimp only
    rw [Table.find?_delete]
    rcases Option.eq_none_or_eq_some (c.tags.find? k) with hfind | ⟨t, hfind⟩
    · simp [hfind]
    · have hk := (Table.find?_eq_some.1 hfind).2
      by_cases heq : t.tag = tagKey text tag
      · -- The tag that goes does not point at a locked version.
        have hold : ¬(c.tags.find? k).map (·.version) = some v := by
          rw [← hk, heq]
          exact fun hold => hne (hmove.1 hold).symm
        rw [hfind] at hold ⊢
        simpa [Option.filter, heq] using hold
      · simp [hfind, Option.filter, heq]
  | setDeprecated version deprecated actor expectedRevision now =>
    obtain ⟨p, c₁, -, hmutable, hset, rfl⟩ := setNPMVersionDeprecated_ok h
    obtain ⟨-, hset⟩ := require_bind_ok.1 hset
    cases hset
    refine ⟨find?_update_of (fun row => by split <;> rfl) fun row hrow => if_neg fun heq =>
      hother hmutable (heq.symm.trans hrow), fun _ => .rfl⟩
  | packument actor expectedRevision deprecations tags now => exact packument_frozen hs hl hv hleaves h
  | unpublish version actor expectedRevision now =>
    obtain ⟨⟨_, path⟩, hcall, rfl⟩ := map_ok.1 h
    obtain ⟨p, c₁, c₂, -, hmutable, hc₁, hlast, rfl⟩ := unpublishNPMVersion_ok hcall
    have hfrozen : Frozen v c c₁ := by
      rw [hc₁]
      refine ⟨find?_update_of (fun row => by split <;> rfl) fun row hrow => if_neg fun heq =>
        hother hmutable (heq.symm.trans hrow), ?_⟩
      exact delete_frozen (hother hmutable) c.tags
    have hl₁ : Locked c₁ v := by
      rw [hc₁]
      exact hl
    rcases hlast with ⟨-, rfl⟩ | ⟨hchosen, hcheck, hset⟩
    · exact hfrozen.updatePackage _
    · have hname : versionKey text (latestNPMVersion c₁ semver) = latestNPMVersion c₁ semver := by
        have hpub := latestNPMVersion_published hchosen
        have hpub : published (c.entomb (versionKey text version)) (latestNPMVersion c₁ semver) = true := hc₁ ▸ hpub
        obtain ⟨old, hold, hname⟩ := entomb_named hpub
        rw [← hname, (hs.tidy.named old hold).1]
      have hlast : Frozen v c₁ c₂ := ⟨by rw [hset.versions], upsert_frozen hne hl₁ hlatest.2 hname hcheck hset⟩
      exact (hfrozen.trans hlast).updatePackage _
  | archive actor archived now =>
    obtain ⟨p, -, hmutable, rfl⟩ := setNPMPackageArchived_ok h
    exact absurd hl (ensureMutable_all hmutable v)
  | delete actor expectedRevision now =>
    obtain ⟨⟨_, paths⟩, hcall, rfl⟩ := map_ok.1 h
    obtain ⟨p, c₁, -, hmutable, rfl, rfl⟩ := deleteNPMPackage_ok hcall
    exact absurd hl (ensureMutable_all hmutable v)

/-! ### Runs -/

theorem lockRun_frozen (hlatest : tagKey text "latest" = "latest" ∧ Uncut text "latest") (hs : Stored text c₀)
    (hv : (c₀.versions.find? v).isSome)
    (hrun : LockRun text semver (fun c call => Whole text call ∧ Locked c v ∧ Leaves text v c call) c₀ c) :
      Frozen v c₀ c := by
  suffices h : Stored text c ∧ Frozen v c₀ c from h.2
  induction hrun with
  | refl => exact ⟨hs, .refl v _⟩
  | call out call _ hp h ih =>
    obtain ⟨hstored, hfrozen⟩ := ih
    obtain ⟨hw, hl, hleaves⟩ := hp
    exact ⟨exec_stored hlatest.1 hw hstored h, hfrozen.trans
      (exec_frozen hlatest hw hstored hl (hfrozen.row ▸ hv) hleaves h)⟩
  | locks locks teamLocked _ ih =>
    obtain ⟨hstored, hfrozen⟩ := ih
    exact ⟨⟨⟨hstored.tidy.named, hstored.tidy.mirrored, hstored.tidy.absent⟩, hstored.spelled, hstored.clean⟩,
      ⟨hfrozen.row, hfrozen.tags⟩⟩

/-! ### A lock on one version -/

theorem ensureMutable_unlock {w : String} (hv : v ≠ "") (hw : w ≠ v) :
    ensureMutable text (c.unlock v) w false = ensureMutable text c w false := by
  simp [ensureMutable, Catalog.unlock, List.mem_filter, hw, Ne.symm hv]

theorem lockNPMPackage_unlock (hv : v ≠ "") : lockNPMPackage text (c.unlock v) = lockNPMPackage text c := by
  simp only [lockNPMPackage, ensureMutable_unlock hv (Ne.symm hv)]
  rfl

theorem tagChange_unlock {tag version : String} (hv : v ≠ "")
    (hmove : npmTagVersion c (text.toLower (text.trimSpace tag)) = v ↔ version = v) :
    ensureNPMTagChange text (c.unlock v) tag version = ensureNPMTagChange text c tag version := by
  have hsame : ∀ k, npmTagVersion (c.unlock v) k = npmTagVersion c k := fun _ => rfl
  simp only [ensureNPMTagChange, hsame]
  by_cases heq : npmTagVersion c (text.toLower (text.trimSpace tag)) = version
  · rw [if_pos heq, if_pos heq]
  · -- Neither of the two is `v`.
    have hprevious : npmTagVersion c (text.toLower (text.trimSpace tag)) ≠ v := fun h => heq (h.trans (hmove.1 h).symm)
    have hversion : version ≠ v := fun h => hprevious (hmove.2 h)
    rw [if_neg heq, if_neg heq, ensureMutable_unlock hv hprevious, ensureMutable_unlock hv hversion]

theorem upsertNPMTag_unlock {tag version : String} {now : Int} (h : upsertNPMTag text tag version now (c.unlock v) = .ok c') :
    ∃ c₁, upsertNPMTag text tag version now c = .ok c₁ ∧ c₁.unlock v = c' := by
  obtain ⟨hne, h⟩ := require_bind_ok.1 h
  cases h
  exact ⟨_, require_bind_ok.2 ⟨hne, rfl⟩, rfl⟩

theorem deprecateVersion_unlock {version deprecated : String}
    (h : deprecateVersion text version deprecated (c.unlock v) = .ok c') :
    ∃ c₁, deprecateVersion text version deprecated c = .ok c₁ ∧ c₁.unlock v = c' := by
  obtain ⟨hpub, h⟩ := require_bind_ok.1 h
  cases h
  exact ⟨_, require_bind_ok.2 ⟨hpub, rfl⟩, rfl⟩

theorem foldlM_sim {α β ε : Type} {f g : β → α → Except ε β} (R : β → β → Prop) {l : List α} {b b' r : β}
    (h : l.foldlM f b = .ok r) (h0 : R b b')
    (hstep : ∀ a ∈ l, ∀ b b' r, R b b' → f b a = .ok r → ∃ r', g b' a = .ok r' ∧ R r r') :
    ∃ r', l.foldlM g b' = .ok r' ∧ R r r' := by
  induction l generalizing b b' with
  | nil =>
    cases h
    exact ⟨b', rfl, h0⟩
  | cons a l ih =>
    rw [List.foldlM_cons] at h
    obtain ⟨b₁, hfirst, h⟩ := bind_ok.1 h
    obtain ⟨b₁', hfirst', hR⟩ := hstep a List.mem_cons_self b b' b₁ h0 hfirst
    obtain ⟨r', hrest, hR⟩ := ih h hR fun a ha => hstep a (List.mem_cons_of_mem _ ha)
    exact ⟨r', by rw [List.foldlM_cons]; exact bind_ok.2 ⟨b₁', hfirst', hrest⟩, hR⟩

theorem upserts_unlock {tags : List (String × String)} {now : Int}
    (h : tags.foldlM (fun c (tag, version) => upsertNPMTag text tag version now c) (c.unlock v) = .ok c') :
    ∃ c₁, tags.foldlM (fun c (tag, version) => upsertNPMTag text tag version now c) c = .ok c₁ ∧
      c₁.unlock v = c' := by
  refine foldlM_sim (fun b b' => b'.unlock v = b) h rfl fun q _ b b' r hb hstep => ?_
  subst hb
  exact upsertNPMTag_unlock hstep

theorem deprecateVersions_unlock {deprecations : StringMap} (h : deprecateVersions text deprecations (c.unlock v) = .ok c') :
    ∃ c₁, deprecateVersions text deprecations c = .ok c₁ ∧ c₁.unlock v = c' := by
  refine foldlM_sim (fun b b' => b'.unlock v = b) h rfl fun q _ b b' r hb hstep => ?_
  subst hb
  exact deprecateVersion_unlock hstep

theorem packumentTags_unlock {tags : StringMap} {now : Int} (h : packumentTags text now tags (c.unlock v) = .ok c') :
    ∃ c₁, packumentTags text now tags c = .ok c₁ ∧ c₁.unlock v = c' := by
  refine foldlM_sim (fun b b' => b'.unlock v = b) h rfl fun q _ b b' r hb hstep => ?_
  subst hb
  obtain ⟨hpub, hput⟩ := require_bind_ok.1 hstep
  obtain ⟨c₁, hput, hc₁⟩ := upsertNPMTag_unlock hput
  exact ⟨c₁, require_bind_ok.2 ⟨hpub, hput⟩, hc₁⟩

/-- The tags of the publication did not point at `v`, as they point at its version afterwards. -/
theorem recordTags_unlock {versionName : String} {now : Int} {tags : StringMap} (hv : v ≠ "") (hname : versionName ≠ v)
    (hnamed : versionKey text versionName = versionName) (huncut : ∀ q ∈ tags.rows, Uncut text q.1)
    (hfrozen : ∀ k, (c'.tags.find? k).map (·.version) = some v ↔ (c.tags.find? k).map (·.version) = some v)
    (h : recordTags text versionName now tags (c.unlock v) = .ok c') :
    ∃ c₁, recordTags text versionName now tags c = .ok c₁ ∧ c₁.unlock v = c' := by
  have hset := recordTags_ok h
  have hfree : ∀ q ∈ tags.rows, q.2 = versionName → ¬(c.tags.find? (tagKey text q.1)).map (·.version) = some v := by
    intro q hq htag hold
    have hnew := (hfrozen _).2 hold
    rw [hset.find] at hnew
    split at hnew
    · next p hlast =>
      have hp : p.2 = versionName := by
        simpa using (List.mem_filter.1 (List.mem_filter.1 (List.mem_of_getLast? hlast)).1).2
      exact hname (hnamed.symm.trans (hp ▸ Option.some.inj hnew))
    · next hnone =>
      have hin : q ∈ (tags.rows.filter fun q => q.2 = versionName).filter fun p => tagKey text p.1 = tagKey text q.1 :=
        List.mem_filter.2 ⟨List.mem_filter.2 ⟨hq, by simp [htag]⟩, by simp⟩
      rw [List.getLast?_eq_none_iff.1 hnone] at hin
      cases hin
  suffices hsim : ∃ c₁, recordTags text versionName now tags c = .ok c₁ ∧ c₁.unlock v = c' ∧
      ∀ k, (c₁.tags.find? k).map (·.version) = some v → (c.tags.find? k).map (·.version) = some v by
    obtain ⟨c₁, hloop, hc₁, -⟩ := hsim
    exact ⟨c₁, hloop, hc₁⟩
  refine foldlM_sim (fun b b' => b'.unlock v = b ∧
    ∀ k, (b'.tags.find? k).map (·.version) = some v → (c.tags.find? k).map (·.version) = some v) h
      ⟨rfl, fun _ => id⟩
    fun q hq b b' r hb hstep => ?_
  obtain ⟨rfl, htags⟩ := hb
  dsimp only at hstep ⊢
  split at hstep
  · next hskip =>
    cases hstep
    exact ⟨b', by rw [if_pos hskip], rfl, htags⟩
  · next htag =>
    obtain ⟨u, hcheck, hput⟩ := bind_ok.1 hstep
    have htag : q.2 = versionName := not_not.1 htag
    have hmove : npmTagVersion b' (text.toLower (text.trimSpace q.1)) = v ↔ q.2 = v := by
      rw [huncut q hq, npmTagVersion_eq hv, htag]
      exact ⟨fun hold => absurd (htags _ hold) (hfree q hq htag), fun heq => absurd heq hname⟩
    obtain ⟨c₁, hput, hc₁⟩ := upsertNPMTag_unlock hput
    refine ⟨c₁, ?_, hc₁, fun k hk => ?_⟩
    · rw [if_neg (not_not.2 htag)]
      exact bind_ok.2 ⟨u, tagChange_unlock hv hmove ▸ hcheck, hput⟩
    · obtain rfl := upsertNPMTag_ok hput
      rw [Table.find?_put] at hk
      split at hk
      · rw [Option.map_some, htag, hnamed] at hk
        exact absurd (Option.some.inj hk) hname
      · exact htags k hk

theorem packumentLocks_unlock {actor : String} {expectedRevision : Int} {deprecations tags : StringMap} {now : Int}
    {c₁ c₂ : Catalog} {p : NPMPackage} (hs : Stored text c)
    (hothers : Others text v c (.packument actor expectedRevision deprecations tags now)) (hp : c.package = some p)
    (hdeps : deprecateVersions text deprecations (c.unlock v) = .ok c₁)
    (hloop : packumentTags text now tags { c₁ with tags := Table.empty } = .ok c₂)
    (hfrozen : ∀ k, (c₂.tags.find? k).map (·.version) = some v ↔ (c.tags.find? k).map (·.version) = some v)
    (h : ensureNPMPackumentLocks text (c.unlock v) deprecations tags = .ok ()) :
    ensureNPMPackumentLocks text c deprecations tags = .ok () := by
  obtain ⟨hdeprecations, h⟩ := require_bind_ok.1 h
  obtain ⟨haway, honto⟩ := require_bind_ok.1 h
  have honto := require_ok.1 honto
  obtain ⟨hset, hpub⟩ := packumentTags_ok hloop
  have hlocked : ∀ w, w ≠ v → lockedVersion c w = true → lockedVersion (c.unlock v) w = true := by
    intro w hw
    simp [lockedVersion, Catalog.unlock, List.mem_filter, hw]
  have htidy : Tidy text (c.unlock v) := ⟨hs.tidy.named, hs.tidy.mirrored, hs.tidy.absent⟩
  have hkey : ∀ q ∈ tags.rows, versionKey text q.2 = q.2 := by
    intro q hq
    obtain ⟨w, hw, hname, -⟩ := published_iff.1 (hpub q hq)
    exact hname ▸ (((deprecateVersions_ok hdeps).tidy htidy hp).named w hw).1
  -- The tags of the packument are those of the table afterwards.
  have hfind : ∀ k, (c₂.tags.find? k).map (·.version) = (tags.find? k).map Prod.snd := by
    intro k
    have hfilter : (tags.rows.filter fun q => tagKey text q.1 = k) = (tags.find? k).toList := by
      rw [← Table.filter_key]
      refine List.filter_congr fun q hq => ?_
      rw [hothers.2 q hq]
    rw [hset.find k, hfilter]
    rcases Option.eq_none_or_eq_some (tags.find? k) with hnone | ⟨q, hsome⟩
    · rw [hnone]
      rfl
    · simp [hsome, hkey q (Table.find?_eq_some.1 hsome).1]
  refine require_bind_ok.2 ⟨fun row hrow hl next hnext => ?_,
    require_bind_ok.2 ⟨fun t ht hl => ?_, require_ok.2 fun q hq hl => ?_⟩⟩
  · by_cases hv : row.version = v
    · exact hothers.1 row (Table.find?_eq_some.2 ⟨hrow, hv⟩) next (hv ▸ hnext)
    · exact hdeprecations row hrow (hlocked _ hv hl) next hnext
  · by_cases hv : t.version = v
    · have hold : (c.tags.find? t.tag).map (·.version) = some v := by
        rw [Table.find?_eq_some.2 ⟨ht, rfl⟩, Option.map_some, hv]
      have hnew := (hfrozen t.tag).2 hold
      rw [hfind] at hnew
      rw [StringMap.get, hnew, hv]
      rfl
    · exact haway t ht (hlocked _ hv hl)
  · by_cases hv : q.2 = v
    · have hnew : (c₂.tags.find? q.1).map (·.version) = some v := by
        rw [hfind, Table.find?_eq_some.2 ⟨hq, rfl⟩, Option.map_some, hv]
      have hold := (hfrozen q.1).1 hnew
      rw [npmTagVersion, hold, hv]
      rfl
    · exact honto q hq (hlocked _ hv hl)

/-- A call that goes through without the lock, is about other versions and leaves the tags of `v` goes through with it. -/
theorem exec_unlock (hlatest : tagKey text "latest" = "latest" ∧ Uncut text "latest") (hv : v ≠ "") (hw : Whole text call)
    (hs : Stored text c) (hothers : Others text v c call) (h : exec text semver out (c.unlock v) call = .ok c')
    (hfrozen : Frozen v c c') : ∃ c₁, exec text semver out c call = .ok c₁ ∧ c₁.unlock v = c' := by
  have htags := hfrozen.tags
  cases call with
  | publish pkg version tags username =>
    simp only [exec, recordNPMPublication] at h
    obtain ⟨hinput, h⟩ := require_bind_ok.1 h
    obtain ⟨p, hp, h⟩ := bind_ok.1 h
    obtain ⟨_, hmutable, h⟩ := bind_ok.1 h
    obtain ⟨harchived, h⟩ := require_bind_ok.1 h
    obtain ⟨hlocal, h⟩ := require_bind_ok.1 h
    obtain ⟨hpermitted, h⟩ := require_bind_ok.1 h
    obtain ⟨hnew, h⟩ := require_bind_ok.1 h
    obtain ⟨hlimit, h⟩ := require_bind_ok.1 h
    obtain ⟨versions, hinsert, h⟩ := bind_ok.1 h
    obtain ⟨c₁, hloop, h⟩ := bind_ok.1 h
    cases h
    rw [lockNPMPackage_unlock hv] at hp
    rw [ensureMutable_unlock hv hothers] at hmutable
    have htags₁ : ∀ k, (c₁.tags.find? k).map (·.version) = some v ↔ (c.tags.find? k).map (·.version) = some v :=
      htags
    have hloop : recordTags text (versionKey text version.version) pkg.updatedAt tags
        (Catalog.unlock { c with versions := versions } v) = .ok c₁ := hloop
    obtain ⟨c₂, hloop₂, rfl⟩ := recordTags_unlock (c := { c with versions := versions }) hv hothers hw.1.1 hw.2
      htags₁ hloop
    simp only [exec, recordNPMPublication]
    refine ⟨_, require_bind_ok.2 ⟨hinput, bind_ok.2 ⟨p, hp, bind_ok.2 ⟨_, hmutable, require_bind_ok.2 ⟨harchived,
      require_bind_ok.2 ⟨hlocal, require_bind_ok.2 ⟨hpermitted, require_bind_ok.2 ⟨hnew, require_bind_ok.2 ⟨hlimit,
      bind_ok.2 ⟨versions, hinsert, bind_ok.2 ⟨c₂, hloop₂, rfl⟩⟩⟩⟩⟩⟩⟩⟩⟩⟩, rfl⟩
  | rollback version previous previousTags =>
    simp only [exec, rollbackNPMPublicationReview] at h
    obtain ⟨hinput, h⟩ := require_bind_ok.1 h
    obtain ⟨p, hp, h⟩ := bind_ok.1 h
    obtain ⟨hfound, h⟩ := require_bind_ok.1 h
    obtain ⟨c₁, hloop, h⟩ := bind_ok.1 h
    cases h
    obtain ⟨c₂, hloop₂, rfl⟩ := upserts_unlock (c := c.dropVersion (versionKey text version)) hloop
    simp only [exec, rollbackNPMPublicationReview]
    exact ⟨_, require_bind_ok.2 ⟨hinput, bind_ok.2
      ⟨p, hp, require_bind_ok.2 ⟨hfound, bind_ok.2 ⟨c₂, hloop₂, rfl⟩⟩⟩⟩, rfl⟩
  | mirror => exact hothers.elim
  | setTag tag version actor expectedRevision now =>
    obtain ⟨p, hp, h⟩ := bind_ok.1 h
    obtain ⟨_, hpermitted, h⟩ := bind_ok.1 h
    obtain ⟨_, hrevision, h⟩ := bind_ok.1 h
    obtain ⟨hpub, h⟩ := require_bind_ok.1 h
    obtain ⟨_, hcheck, h⟩ := bind_ok.1 h
    obtain ⟨c₁, hput, h⟩ := bind_ok.1 h
    cases h
    obtain ⟨row, hrow, hname, -⟩ := published_iff.1 hpub
    have hkey : versionKey text version = version := hname ▸ (hs.tidy.named row hrow).1
    obtain ⟨c₂, hput₂, rfl⟩ := upsertNPMTag_unlock hput
    have hmove : npmTagVersion c (text.toLower (text.trimSpace tag)) = v ↔ version = v := by
      rw [hw.2, npmTagVersion_eq hv, ← htags]
      obtain rfl := upsertNPMTag_ok hput₂
      simp [Catalog.updatePackage, Catalog.unlock, Table.find?_put, hkey]
    rw [lockNPMPackage_unlock hv] at hp
    rw [tagChange_unlock hv hmove] at hcheck
    exact ⟨_, bind_ok.2 ⟨p, hp, bind_ok.2 ⟨_, hpermitted, bind_ok.2 ⟨_, hrevision, require_bind_ok.2 ⟨hpub,
      bind_ok.2 ⟨_, hcheck, bind_ok.2 ⟨c₂, hput₂, rfl⟩⟩⟩⟩⟩⟩, rfl⟩
  | deleteTag tag actor expectedRevision now =>
    obtain ⟨p, hp, h⟩ := bind_ok.1 h
    obtain ⟨_, hpermitted, h⟩ := bind_ok.1 h
    obtain ⟨_, hrevision, h⟩ := bind_ok.1 h
    obtain ⟨_, hcheck, h⟩ := bind_ok.1 h
    obtain ⟨hfound, h⟩ := require_bind_ok.1 h
    cases h
    have hmove : npmTagVersion c (text.toLower (text.trimSpace (tagKey text tag))) = v ↔ "" = v := by
      rw [hw.2, hw.1, npmTagVersion_eq hv, ← htags]
      have hgone : (c.tags.delete (·.tag = tagKey text tag)).find? (tagKey text tag) = none := by
        rw [Table.find?_eq_none]
        intro t ht
        simpa using (List.mem_filter.1 ht).2
      simp [Catalog.updatePackage, Catalog.unlock, hgone, Ne.symm hv]
    rw [lockNPMPackage_unlock hv] at hp
    rw [tagChange_unlock hv hmove] at hcheck
    exact ⟨_, bind_ok.2 ⟨p, hp, bind_ok.2 ⟨_, hpermitted, bind_ok.2 ⟨_, hrevision, bind_ok.2 ⟨_, hcheck,
      require_bind_ok.2 ⟨hfound, rfl⟩⟩⟩⟩⟩, rfl⟩
  | setDeprecated version deprecated actor expectedRevision now =>
    obtain ⟨p, hp, h⟩ := bind_ok.1 h
    obtain ⟨_, hpermitted, h⟩ := bind_ok.1 h
    obtain ⟨_, hrevision, h⟩ := bind_ok.1 h
    obtain ⟨_, hmutable, h⟩ := bind_ok.1 h
    obtain ⟨c₁, hset, h⟩ := bind_ok.1 h
    cases h
    obtain ⟨c₂, hset₂, rfl⟩ := deprecateVersion_unlock hset
    rw [lockNPMPackage_unlock hv] at hp
    rw [ensureMutable_unlock hv hothers] at hmutable
    exact ⟨_, bind_ok.2 ⟨p, hp, bind_ok.2 ⟨_, hpermitted, bind_ok.2 ⟨_, hrevision, bind_ok.2 ⟨_, hmutable,
      bind_ok.2 ⟨c₂, hset₂, rfl⟩⟩⟩⟩⟩, rfl⟩
  | packument actor expectedRevision deprecations tags now =>
    obtain ⟨p, hp, h⟩ := bind_ok.1 h
    obtain ⟨_, hpermitted, h⟩ := bind_ok.1 h
    obtain ⟨_, hrevision, h⟩ := bind_ok.1 h
    obtain ⟨_, hlocks, h⟩ := bind_ok.1 h
    obtain ⟨c₁, hdeps, h⟩ := bind_ok.1 h
    obtain ⟨c₂, hloop, h⟩ := bind_ok.1 h
    cases h
    rw [lockNPMPackage_unlock hv] at hp
    have hlocks := packumentLocks_unlock hs hothers (lockNPMPackage_ok hp).1 hdeps hloop htags hlocks
    obtain ⟨c₃, hdeps₂, rfl⟩ := deprecateVersions_unlock hdeps
    obtain ⟨c₄, hloop₂, rfl⟩ := packumentTags_unlock (c := { c₃ with tags := Table.empty }) hloop
    exact ⟨_, bind_ok.2 ⟨p, hp, bind_ok.2 ⟨_, hpermitted, bind_ok.2 ⟨_, hrevision, bind_ok.2 ⟨_, hlocks,
      bind_ok.2 ⟨c₃, hdeps₂, bind_ok.2 ⟨c₄, hloop₂, rfl⟩⟩⟩⟩⟩⟩, rfl⟩
  | unpublish version actor expectedRevision now =>
    obtain ⟨⟨_, path⟩, hcall, rfl⟩ := map_ok.1 h
    simp only [unpublishNPMVersion] at hcall
    obtain ⟨p, hp, hcall⟩ := bind_ok.1 hcall
    obtain ⟨_, hpermitted, hcall⟩ := bind_ok.1 hcall
    obtain ⟨_, hrevision, hcall⟩ := bind_ok.1 hcall
    obtain ⟨_, hmutable, hcall⟩ := bind_ok.1 hcall
    obtain ⟨row, hrow, hcall⟩ := bind_ok.1 hcall
    obtain ⟨hlive, hcall⟩ := require_bind_ok.1 hcall
    rw [lockNPMPackage_unlock hv] at hp
    rw [ensureMutable_unlock hv hothers] at hmutable
    simp only [exec, unpublishNPMVersion]
    split at hcall
    · next hempty =>
      cases hcall
      let c₁ := c.entomb (versionKey text version)
      let c₂ := c₁.updatePackage fun p =>
        { p with latestVersion := latestNPMVersion c₁ semver, revision := p.revision + 1, updatedAt := now }
      refine ⟨c₂, map_ok.2 ⟨(c₂, row.tarballPath),
        bind_ok.2 ⟨p, hp, bind_ok.2 ⟨_, hpermitted,
        bind_ok.2 ⟨_, hrevision, bind_ok.2 ⟨_, hmutable,
          bind_ok.2 ⟨row, hrow, require_bind_ok.2 ⟨hlive, ?_⟩⟩⟩⟩⟩⟩, rfl⟩, rfl⟩
      exact (if_pos hempty).trans rfl
    · next hchosen =>
      obtain ⟨_, hcheck, hcall⟩ := bind_ok.1 hcall
      obtain ⟨c₂, hput, hcall⟩ := bind_ok.1 hcall
      cases hcall
      set c₁ := c.entomb (versionKey text version) with hc₁
      have hname : versionKey text (latestNPMVersion c₁ semver) = latestNPMVersion c₁ semver := by
        have hpub : published c₁ (latestNPMVersion c₁ semver) = true := latestNPMVersion_published hchosen
        obtain ⟨old, hold, hname⟩ := entomb_named (hc₁ ▸ hpub)
        rw [← hname, (hs.tidy.named old hold).1]
      obtain ⟨c₃, hput₂, rfl⟩ := upsertNPMTag_unlock (c := c₁) hput
      have hmove : npmTagVersion c₁ (text.toLower (text.trimSpace "latest")) = v ↔ latestNPMVersion c₁ semver = v := by
        have hnew : (c₃.tags.find? "latest").map (·.version) = some (latestNPMVersion c₁ semver) := by
          obtain rfl := upsertNPMTag_ok hput₂
          dsimp only
          rw [Table.find?_put, if_pos hlatest.1.symm, Option.map_some]
          exact congrArg some hname
        have hleft := delete_frozen hothers c.tags "latest"
        rw [hlatest.2, hlatest.1, npmTagVersion_eq hv]
        refine hleft.trans ((htags "latest").symm.trans ?_)
        exact (congrArg (· = some v) hnew).to_iff.trans Option.some_inj
      have hcheck : ensureNPMTagChange text (c₁.unlock v) "latest" (latestNPMVersion c₁ semver) = .ok () := hcheck
      rw [tagChange_unlock hv hmove] at hcheck
      let c₄ := c₃.updatePackage fun p =>
        { p with latestVersion := latestNPMVersion c₁ semver, revision := p.revision + 1, updatedAt := now }
      refine ⟨c₄, map_ok.2 ⟨(c₄, row.tarballPath),
        bind_ok.2 ⟨p, hp, bind_ok.2 ⟨_, hpermitted,
        bind_ok.2 ⟨_, hrevision, bind_ok.2 ⟨_, hmutable,
          bind_ok.2 ⟨row, hrow, require_bind_ok.2 ⟨hlive, ?_⟩⟩⟩⟩⟩⟩, rfl⟩, rfl⟩
      exact (if_neg hchosen).trans (bind_ok.2 ⟨_, hcheck, bind_ok.2 ⟨c₃, hput₂, rfl⟩⟩)
  | archive => exact hothers.elim
  | delete => exact hothers.elim

/-- Between the calls that are held up by locks, and rollbacks that leave the version alone, a locked version and the tags
that point at it stay as they are; and a lock on one version holds up no call about others. -/
theorem locks_freeze (hlatest : tagKey text "latest" = "latest" ∧ Uncut text "latest") (h0 : Fresh c₀)
    (hreach : LockRun text semver (fun _ call => Whole text call) c₀ c) :
    (∀ v c', (c.versions.find? v).isSome →
      LockRun text semver (fun c call => Whole text call ∧ Locked c v ∧ Leaves text v c call) c c' → Frozen v c c') ∧
    ∀ v out call c', v ≠ "" → Whole text call → Others text v c call → exec text semver out (c.unlock v) call =
      .ok c' → Frozen v c c' → ∃ c₁, exec text semver out c call = .ok c₁ ∧ c₁.unlock v = c' := by
  have hs : Stored text c := lockRun_stored hlatest.1 h0.stored (fun _ _ h => h) hreach
  constructor
  · intro v c' hv hrun
    exact lockRun_frozen hlatest hs hv hrun
  · intro v out call c' hv hw hothers h hfrozen
    exact exec_unlock hlatest hv hw hs hothers h hfrozen

/-! ### A rollback under a lock -/

def lockedCatalog : Catalog := { publishedCatalog with locks := ["1.0.0"] }

def nextPublication : Call :=
  .publish ⟨"", "", false, 0, 8⟩ { oneVersion with version := "1.1.0" } (single ("next", "1.1.0")) "alice"

def nextCatalog : Catalog := afterCall lockedCatalog nextPublication

theorem firstPublication_whole : Whole plainText firstPublication := by
  refine ⟨firstPublication_spelled, ?_⟩
  unfold Uncut
  decide

theorem published_lockRun : LockRun plainText noSemver (fun _ call => Whole plainText call) newCatalog publishedCatalog :=
  .call everybody firstPublication (.refl newCatalog) firstPublication_whole publishedCatalog_ok

theorem plainText_latest : tagKey plainText "latest" = "latest" ∧ Uncut plainText "latest" := by
  unfold Uncut
  decide

theorem locks_freeze_next : Frozen "1.0.0" lockedCatalog nextCatalog := by
  have hnext : exec plainText noSemver everybody lockedCatalog nextPublication = .ok nextCatalog :=
    ok_getD (d := lockedCatalog) (by decide)
  have hwhole : Whole plainText nextPublication := by
    unfold nextPublication Whole Spelled Named Tagged Uncut
    decide
  have hlocked : Locked lockedCatalog "1.0.0" := .inr (.inr (by decide))
  have hreach := published_lockRun.locks ["1.0.0"] publishedCatalog.teamLocked
  exact (locks_freeze plainText_latest newCatalog_fresh hreach).1 "1.0.0" nextCatalog (by decide)
    (.call everybody nextPublication (.refl _) ⟨hwhole, hlocked, trivial⟩ hnext)

def frozenCatalog : Catalog := { publishedCatalog with locks := [""] }

/-- The whole package is locked, and a version goes. -/
theorem rollback_ignores_locks : ¬ ∀ c, LockRun plainText noSemver (fun _ call => Whole plainText call) newCatalog c →
    ∀ v c', (c.versions.find? v).isSome → LockRun plainText noSemver (fun c call => Whole plainText call ∧
      Locked c v) c c' → Frozen v c c' := by
  intro hall
  have hrollback : exec plainText noSemver everybody frozenCatalog rollbackCall =
      .ok (afterCall frozenCatalog rollbackCall) :=
    ok_getD (d := frozenCatalog) (by decide)
  have hwhole : Whole plainText rollbackCall := by
    intro q hq
    cases hq
  have hlocked : Locked frozenCatalog "1.0.0" := .inr (.inl (by decide))
  have hreach := published_lockRun.locks [""] publishedCatalog.teamLocked
  have hfrozen := hall frozenCatalog hreach "1.0.0" (afterCall frozenCatalog rollbackCall) (by decide)
    (.call everybody rollbackCall (.refl _) ⟨hwhole, hlocked⟩ hrollback)
  have hbefore : (frozenCatalog.versions.find? "1.0.0").isSome = true := by decide
  have hafter : ((afterCall frozenCatalog rollbackCall).versions.find? "1.0.0").isSome = false := by decide
  rw [hfrozen.row, hbefore] at hafter
  cases hafter

end Renop.Npm
