import Mathlib.Data.List.Induction
import Mathlib.Data.List.Sort
import Mathlib.Data.String.Basic
import Renop.NpmCatalog

/-!
# The tags of an unpublished version

`UnpublishNPMVersion` deletes the tags of the version, and then sets `latest` to what `latestNPMVersionTx` chooses among the
others, also where the tag is still there and names another of them.
-/

namespace Renop.Npm

open Sql Cargo

/-! ### The version that is chosen -/

/-- `Compare` orders versions; those of equal precedence compare as 0. -/
structure Semver.Lawful (semver : Semver) : Prop where
  swap : ∀ a b, 0 < semver.compare a b ↔ semver.compare b a < 0
  trans : ∀ a b c, semver.compare a b ≤ 0 → semver.compare b c ≤ 0 → semver.compare a c ≤ 0

section Choice
variable (semver : Semver)

def NPMVersion.precedes (b a : NPMVersion) : Int := semver.compare ("v" ++ b.version) ("v" ++ a.version)

def NPMVersion.valid (a : NPMVersion) : Bool := semver.isValid ("v" ++ a.version)

/-- `a` is chosen before `b`: it has the greater precedence, or the same and is newer. -/
def Beats (a b : NPMVersion) : Prop :=
  if a.valid semver then b.valid semver = true → b.precedes semver a < 0 ∨ b.precedes semver a = 0 ∧ newer a b
  else b.valid semver = false ∧ newer a b

structure Greatest (rows : List NPMVersion) (a : NPMVersion) : Prop where
  mem : a ∈ rows
  beats : ∀ b ∈ rows, Beats semver a b

end Choice

variable {text : Text} {semver : Semver} {out : Outside} {c c' : Catalog}

theorem Semver.Lawful.compare_self (h : semver.Lawful) (a : String) : semver.compare a a = 0 := by
  have hswap := h.swap a a
  omega

theorem Semver.Lawful.lt_of_le_of_lt (h : semver.Lawful) {a b d : String} (hab : semver.compare a b ≤ 0)
    (hbd : 0 < semver.compare d b) :
    semver.compare a d < 0 := by
  by_contra hge
  have hda : semver.compare d a ≤ 0 := by
    have hswap := h.swap d a
    omega
  have hdb := h.trans d a b hda hab
  omega

theorem newer_total (a b : NPMVersion) : newer a b ∨ newer b a := by
  unfold newer
  rcases lt_trichotomy a.createdAt b.createdAt with hlt | heq | hlt
  · exact .inr (.inl hlt)
  · rcases le_total a.version b.version with hle | hle
    · exact .inr (.inr ⟨heq, hle⟩)
    · exact .inl (.inr ⟨heq.symm, hle⟩)
  · exact .inl (.inl hlt)

theorem newer_trans {a b d : NPMVersion} (hab : newer a b) (hbd : newer b d) : newer a d := by
  unfold newer at *
  rcases hab with hab | ⟨hab, hle⟩
  · exact .inl (by omega)
  · rcases hbd with hbd | ⟨hbd, hle'⟩
    · exact .inl (by omega)
    · exact .inr ⟨by omega, hle'.trans hle⟩

theorem newer_refl (a : NPMVersion) : newer a a := .inr ⟨rfl, le_rfl⟩

theorem newer_antisymm {a b : NPMVersion} (hab : newer a b) (hba : newer b a) : a.version = b.version := by
  unfold newer at *
  rcases hab with hab | ⟨hab, hle⟩ <;> rcases hba with hba | ⟨hba, hle'⟩
  · omega
  · omega
  · omega
  · exact le_antisymm hle' hle

instance : Std.Total newer := ⟨newer_total⟩

instance : IsTrans NPMVersion newer := ⟨fun _ _ _ => newer_trans⟩

theorem Greatest.unique (h : semver.Lawful) {rows : List NPMVersion} {a b : NPMVersion} (ha : Greatest semver rows a)
    (hb : Greatest semver rows b) : a.version = b.version := by
  have hab := ha.beats b hb.mem
  have hba := hb.beats a ha.mem
  have hswap := h.swap ("v" ++ a.version) ("v" ++ b.version)
  unfold Beats NPMVersion.precedes at hab hba
  split at hab
  · next hvalid =>
    split at hba
    · next hvalid' =>
      have hswap' := h.swap ("v" ++ b.version) ("v" ++ a.version)
      rcases hab hvalid' with hlt | ⟨heq, hnew⟩
      · rcases hba hvalid with hlt' | ⟨heq', -⟩ <;> omega
      · rcases hba hvalid with hlt' | ⟨-, hnew'⟩
        · omega
        · exact newer_antisymm hnew hnew'
    · exact absurd hvalid (by simp [hba.1])
  · split at hba
    · next hvalid' => exact absurd hvalid' (by simp [hab.1])
    · exact newer_antisymm hab.2 hba.2

/-- The loop of `latestNPMVersionTx` over rows from the newest on. -/
def scanLatest (semver : Semver) (rows : List NPMVersion) : String :=
  (rows.map (·.version)).foldl (fun latest version =>
    if semver.isValid ("v" ++ version) && (latest = "" || 0 < semver.compare ("v" ++ version) ("v" ++ latest))
    then version else latest) ""

theorem scanLatest_append (rows : List NPMVersion) (a : NPMVersion) :
    scanLatest semver (rows ++ [a]) =
      if a.valid semver && (scanLatest semver rows = "" || 0 < semver.compare ("v" ++ a.version)
        ("v" ++ scanLatest semver rows))
      then a.version else scanLatest semver rows := by
  simp only [scanLatest, List.map_append, List.map_cons, List.map_nil, List.foldl_append, List.foldl_cons, List.foldl_nil]
  rfl

/-- The loop stops at the first of the valid versions with the greatest precedence. -/
theorem scanLatest_spec (h : semver.Lawful) {rows : List NPMVersion} (hsorted : rows.Pairwise newer)
    (hnamed : ∀ a ∈ rows, a.version ≠ "") :
    scanLatest semver rows = "" ∧ (∀ a ∈ rows, a.valid semver = false) ∨
      ∃ a, a.version = scanLatest semver rows ∧ a.valid semver = true ∧ Greatest semver rows a := by
  induction rows using List.reverseRecOn with
  | nil => exact .inl ⟨rfl, by simp⟩
  | append_singleton rows b ih =>
    obtain ⟨hfront, -, hlast⟩ := List.pairwise_append.1 hsorted
    have hold := ih hfront fun a ha => hnamed a (by simp [ha])
    rw [scanLatest_append]
    split
    · next htaken =>
      obtain ⟨hvalid, hgreater⟩ := by simpa using htaken
      refine .inr ⟨b, rfl, hvalid, by simp, fun a ha => ?_⟩
      rw [Beats, if_pos hvalid]
      intro hvalid'
      rcases List.mem_append.1 ha with ha | ha
      · left
        rcases hold with ⟨-, hnone⟩ | ⟨m, hm, hmvalid, hgreatest⟩
        · exact absurd hvalid' (by simp [hnone a ha])
        · have hmne : scanLatest semver rows ≠ "" := hm ▸ hnamed m (by simp [hgreatest.mem])
          have hbm := hgreater.resolve_left hmne
          rw [← hm] at hbm
          have ham := hgreatest.beats a ha
          rw [Beats, if_pos hmvalid] at ham
          refine h.lt_of_le_of_lt ?_ hbm
          have hle := ham hvalid'
          unfold NPMVersion.precedes at hle
          omega
      · obtain rfl := List.mem_singleton.1 ha
        exact .inr ⟨h.compare_self _, newer_refl a⟩
    · next hleft =>
      simp only [Bool.and_eq_true, Bool.or_eq_true, decide_eq_true_eq, not_and, not_or] at hleft
      rcases hold with ⟨hempty, hnone⟩ | ⟨m, hm, hmvalid, hgreatest⟩
      · refine .inl ⟨hempty, fun a ha => ?_⟩
        rcases List.mem_append.1 ha with ha | ha
        · exact hnone a ha
        · obtain rfl := List.mem_singleton.1 ha
          by_contra hvalid
          exact (hleft (by simpa using hvalid)).1 hempty
      · refine .inr ⟨m, hm, hmvalid, by simp [hgreatest.mem], fun a ha => ?_⟩
        rcases List.mem_append.1 ha with ha | ha
        · exact hgreatest.beats a ha
        · obtain rfl := List.mem_singleton.1 ha
          rw [Beats, if_pos hmvalid]
          intro hvalid
          have hle := (hleft hvalid).2
          rw [← hm] at hle
          have hnew := hlast m hgreatest.mem a (by simp)
          unfold NPMVersion.precedes
          rcases Int.lt_or_eq_of_le (not_lt.1 hle) with hlt | heq
          · exact .inl hlt
          · exact .inr ⟨heq, hnew⟩

/-- The versions that are not unpublished. -/
def Catalog.live (c : Catalog) : List NPMVersion := c.versions.rows.filter (!·.unpublished)

theorem latestNPMVersion_greatest (h : semver.Lawful) (hnamed : ∀ v ∈ c.versions.rows, v.version ≠ "")
    (hlive : c.live ≠ []) : ∃ a, a.version = latestNPMVersion c semver ∧ Greatest semver c.live a := by
  set rows := c.live.insertionSort newer with hrows
  have hmem : ∀ {a}, a ∈ rows ↔ a ∈ c.live := List.mem_insertionSort newer
  have hsorted : rows.Pairwise newer := List.pairwise_insertionSort newer _
  have hnamed' : ∀ a ∈ rows, a.version ≠ "" := fun a ha => hnamed a (List.mem_filter.1 (hmem.1 ha)).1
  have hchoice : latestNPMVersion c semver =
      if scanLatest semver rows = "" then ((rows.map (·.version)).find? (· ≠ "")).getD "" else scanLatest semver rows :=
        rfl
  rcases scanLatest_spec h hsorted hnamed' with ⟨hempty, hnone⟩ | ⟨a, ha, hvalid, hgreatest⟩
  · rw [hchoice, if_pos hempty]
    obtain ⟨a, rest, hcons⟩ : ∃ a rest, rows = a :: rest := by
      refine List.exists_cons_of_ne_nil fun hnil => hlive ?_
      exact List.eq_nil_iff_forall_not_mem.2 fun a ha => by simpa [hnil] using hmem.2 ha
    refine ⟨a, ?_, hmem.1 (by simp [hcons]), fun b hb => ?_⟩
    · have hne := hnamed' a (by simp [hcons])
      simp [hcons, hne]
    · have hb := hmem.2 hb
      rw [Beats, if_neg (by simp [hnone a (by simp [hcons])])]
      refine ⟨hnone b hb, ?_⟩
      rw [hcons] at hb hsorted
      rcases List.mem_cons.1 hb with rfl | hb
      · exact newer_refl b
      · exact (List.pairwise_cons.1 hsorted).1 b hb
  · have hne : scanLatest semver rows ≠ "" := ha ▸ hnamed' a hgreatest.mem
    rw [hchoice, if_neg hne]
    exact ⟨a, ha, hmem.1 hgreatest.mem, fun b hb => hgreatest.beats b (hmem.2 hb)⟩

/-! ### The tags -/

theorem live_entomb (version : String) : (c.entomb version).live = c.live.filter (·.version ≠ version) := by
  simp only [Catalog.live, Catalog.entomb, Table.rows_update, List.filter_map, List.filter_filter]
  have hmap : ∀ rows : List NPMVersion,
      (rows.filter fun v => !(if v.version = version then { v with unpublished := true } else v).unpublished).map
        (fun v => if v.version = version then { v with unpublished := true } else v) =
      rows.filter fun v => decide (v.version ≠ version) && !v.unpublished := by
    intro rows
    induction rows with
    | nil => rfl
    | cons v rows ih =>
      by_cases hv : v.version = version
      · simpa [hv] using ih
      · cases hu : v.unpublished <;> simpa [hv, hu] using ih
  exact hmap _

theorem unpublishNPMVersion_tag (hlatest : tagKey text "latest" = "latest") (ht : Tidy text c) {version actor : String}
    {expectedRevision now : Int} {path : String}
    (h : unpublishNPMVersion text out semver version actor expectedRevision now c = .ok (c', path)) {t : DistTag}
    (htag : t ∈ c.tags.rows) (hother : t.version ≠ versionKey text version) :
    (c'.tags.find? t.tag).map (·.version) =
      if t.tag = "latest" ∧ latestNPMVersion (c.entomb (versionKey text version)) semver ≠ "" then
        some (latestNPMVersion (c.entomb (versionKey text version)) semver)
      else some t.version := by
  obtain ⟨p, c₁, c₂, -, -, hc₁, hlast, rfl⟩ := unpublishNPMVersion_ok h
  have hkept : (c₁.tags.find? t.tag).map (·.version) = some t.version := by
    have hfind : c₁.tags.find? t.tag = some t := by
      rw [hc₁]
      exact Table.find?_eq_some.2 ⟨List.mem_filter.2 ⟨htag, by simpa using hother⟩, rfl⟩
    rw [hfind]
    rfl
  rw [← hc₁, updatePackage_tags]
  rcases hlast with ⟨hempty, rfl⟩ | ⟨hne, -, hset⟩
  · rw [if_neg (by simp [hempty]), hkept]
  · have hkey : versionKey text (latestNPMVersion c₁ semver) = latestNPMVersion c₁ semver := by
      obtain ⟨v, hv, hname, -⟩ := published_iff.1 (latestNPMVersion_published hne)
      rw [hc₁] at hv
      obtain ⟨w, hw, rfl⟩ := List.mem_map.1 hv
      have hnamed := (ht.named w hw).1
      split at hname <;> exact hname ▸ hnamed
    rw [hset.find t.tag]
    by_cases hlast : t.tag = "latest"
    · simp [hlast, hlatest, hne, hkey]
    · simp [hlast, Ne.symm hlast, hlatest, hkept]

/-- The tags of the other versions stay as they are exactly when `latest`, where it names one of them, names the greatest. -/
theorem unpublishNPMVersion_undisturbed_iff (hsemver : semver.Lawful) (hlatest : tagKey text "latest" = "latest")
    (ht : Tidy text c) {version actor : String} {expectedRevision now : Int} {path : String}
    (h : unpublishNPMVersion text out semver version actor expectedRevision now c = .ok (c', path)) :
    (∀ t ∈ c.tags.rows, t.version ≠ versionKey text version → (c'.tags.find? t.tag).map (·.version) = some t.version)
      ↔ ∀ t ∈ c.tags.rows, t.tag = "latest" → t.version ≠ versionKey text version →
        (∀ a ∈ c.live, a.version = versionKey text version) ∨
          ∃ a, a.version = t.version ∧ Greatest semver (c.live.filter (·.version ≠ versionKey text version)) a := by
  have hnamed : ∀ v ∈ (c.entomb (versionKey text version)).versions.rows, v.version ≠ "" := by
    intro v hv
    obtain ⟨w, hw, rfl⟩ := List.mem_map.1 hv
    split <;> exact (ht.named w hw).2
  have hempty : latestNPMVersion (c.entomb (versionKey text version)) semver = "" ↔ ∀ a ∈ c.live,
      a.version = versionKey text version := by
    have hlive : (∀ v ∈ (c.entomb (versionKey text version)).versions.rows, v.unpublished = true) ↔
        (c.entomb (versionKey text version)).live = [] := by
      simp [Catalog.live, List.filter_eq_nil_iff]
    rw [latestNPMVersion_eq_empty hnamed, hlive, live_entomb, List.filter_eq_nil_iff]
    simp
  have hgreatest : ∀ k, latestNPMVersion (c.entomb (versionKey text version)) semver ≠ "" →
      (k = latestNPMVersion (c.entomb (versionKey text version)) semver ↔
        ∃ a, a.version = k ∧ Greatest semver (c.live.filter (·.version ≠ versionKey text version)) a) := by
    intro k hne
    rw [← live_entomb]
    have hlive : (c.entomb (versionKey text version)).live ≠ [] := by
      intro hnil
      refine hne (hempty.2 ?_)
      rw [live_entomb, List.filter_eq_nil_iff] at hnil
      simpa using hnil
    obtain ⟨b, hb, hbest⟩ := latestNPMVersion_greatest hsemver hnamed hlive
    exact ⟨fun hk => ⟨b, hb.trans hk.symm, hbest⟩,
      fun ⟨a, ha, habest⟩ => by rw [← ha, ← hb, habest.unique hsemver hbest]⟩
  constructor
  · intro hkept t htag hname hother
    have hfound := hkept t htag hother
    rw [unpublishNPMVersion_tag hlatest ht h htag hother] at hfound
    by_cases hne : latestNPMVersion (c.entomb (versionKey text version)) semver = ""
    · exact .inl (hempty.1 hne)
    · rw [if_pos ⟨hname, hne⟩] at hfound
      exact .inr ((hgreatest _ hne).1 (Option.some.inj hfound).symm)
  · intro hcond t htag hother
    rw [unpublishNPMVersion_tag hlatest ht h htag hother]
    split
    · next hmoved =>
      rcases hcond t htag hmoved.1 hother with hnone | hbest
      · exact absurd (hempty.2 hnone) hmoved.2
      · rw [(hgreatest _ hmoved.2).2 hbest]
    · rfl

/-! ### A prerelease -/

def rank : String → Nat
  | "v0.9.0" => 1
  | "v1.0.0" => 2
  | "v2.0.0-rc.1" => 3
  | _ => 0

/-- `semver` for the versions of the example. -/
def rankSemver : Semver :=
  ⟨fun v => 0 < rank v, fun a b => if rank a < rank b then -1 else if rank b < rank a then 1 else 0⟩

theorem rankSemver_lawful : rankSemver.Lawful := by
  constructor
  · intro a b
    simp only [rankSemver]
    split_ifs <;> omega
  · intro a b d
    simp only [rankSemver]
    split_ifs <;> omega

/-- `latest` is the stable version, `next` the prerelease. -/
def prereleases : Catalog where
  package := some newPackage
  versions := ⟨[{ oneVersion with version := "0.9.0", createdAt := 1 },
    { oneVersion with version := "1.0.0", createdAt := 2 },
    { oneVersion with version := "2.0.0-rc.1", createdAt := 3 }], by decide⟩
  tags := ⟨[⟨"latest", "1.0.0", 2⟩, ⟨"next", "2.0.0-rc.1", 3⟩], by decide⟩
  locks := []
  teamLocked := false

def unpublished (version : String) : Catalog × String :=
  (unpublishNPMVersion plainText everybody rankSemver version "alice" 0 4 prereleases).toOption.getD (prereleases, "")

theorem prereleases_tidy : Tidy plainText prereleases := by
  refine ⟨?_, fun p hp => ?_, nofun⟩
  · decide
  · cases hp
    decide

/-- With an old version gone, `latest` names the prerelease. -/
theorem unpublishNPMVersion_disturbs :
    unpublishNPMVersion plainText everybody rankSemver "0.9.0" "alice" 0 4 prereleases = .ok (unpublished "0.9.0") ∧
      ¬∀ t ∈ prereleases.tags.rows, t.version ≠ versionKey plainText "0.9.0" →
        ((unpublished "0.9.0").1.tags.find? t.tag).map (·.version) = some t.version := by
  refine ⟨ok_getD (d := (prereleases, "")) (by decide), fun hkept => ?_⟩
  have hmoved : ((unpublished "0.9.0").1.tags.find? "latest").map (·.version) = some "2.0.0-rc.1" := by decide
  have hlatest := hkept ⟨"latest", "1.0.0", 2⟩ (by decide) (by decide)
  rw [hmoved] at hlatest
  exact absurd hlatest (by decide)

/-- With the prerelease gone, it names the stable version as before. -/
theorem unpublishNPMVersion_undisturbed_prerelease :
    ((unpublished "2.0.0-rc.1").1.tags.find? "latest").map (·.version) = some "1.0.0" := by
  have hkey : versionKey plainText "2.0.0-rc.1" = "2.0.0-rc.1" := by decide
  have hcall : unpublishNPMVersion plainText everybody rankSemver "2.0.0-rc.1" "alice" 0 4 prereleases =
      .ok (unpublished "2.0.0-rc.1") :=
    ok_getD (d := (prereleases, "")) (by decide)
  rw [← Prod.mk.eta (p := unpublished "2.0.0-rc.1")] at hcall
  have hlatest : tagKey plainText "latest" = "latest" := by decide
  refine (unpublishNPMVersion_undisturbed_iff rankSemver_lawful hlatest prereleases_tidy hcall).2
    (fun t ht hname _ => .inr ?_) ⟨"latest", "1.0.0", 2⟩ List.mem_cons_self (by rw [hkey]; decide)
  rw [hkey]
  have ht : t = ⟨"latest", "1.0.0", 2⟩ := by
    rcases List.mem_cons.1 ht with rfl | ht
    · rfl
    · obtain rfl := List.mem_singleton.1 ht
      exact absurd hname (by decide)
  subst ht
  refine ⟨{ oneVersion with version := "1.0.0", createdAt := 2 }, rfl, by decide, ?_⟩
  unfold Beats
  decide

end Renop.Npm
