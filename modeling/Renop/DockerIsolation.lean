import Renop.DockerRuns
import Renop.RelyGuarantee

/-!
# What one image's requests do to the others

The tables have rows for each image, but a repository keeps a blob once for all its images, and a request names files by what
it says. So the requests for one image leave the others alone if they delete no blob that another image links, bring no blob
that another image waits for, and name their files plainly.
-/

namespace Renop.Docker

open Sql Interleave
open Renop.Locks (viewerID readLocked asciiText)
open Renop.SuperTeam (Text)
open Renop.Cargo (Key)

/-! ### What an image shows -/

/-- The name under which a request changes an image. -/
def Request.changes : Request → Option String
  | .putManifest _ name _ _ _ | .postUpload _ name _ | .patchUpload _ name _ _ | .putUpload _ name _ _ _ => some name
  | .getUploadStatus _ name _ | .deleteUpload _ name _ | .deleteManifest _ _ name _ | .deleteBlob _ _ name _ => some name
  | .tagsList .. | .getManifest .. | .getBlob .. | .approve _ | .deleteImage .. | .deleteRepository _ | .administer _ => none

/-- A digest as the tables keep it. -/
def canonicalDigest (env : Env) (digest : String) : Bool := plainDigest env digest && dockerDigest env.text digest = digest

/-- A request that pulls from an image, by names and digests as they should be, and without a mirror. -/
def Request.pulls (env : Env) (image : Key) : Request → Prop
  | .tagsList _ name _ _ => imageOf env.text name = image
  | .getManifest _ name reference upstream => imageOf env.text name = image ∧
      plainName (parseRepositoryAndImage name).2 = true ∧
      (Storage.hasPrefix reference "sha256:" = true → plainDigest env reference = true) ∧ upstream = .missing
  | .getBlob _ name digest upstream => imageOf env.text name = image ∧ canonicalDigest env digest = true ∧ upstream = none
  | _ => False

/-- What a request is answered. -/
def answer (env : Env) (fault : Step → Bool) (req : Request) (w : World) : Except DockerError Served :=
  (Proc.exec fault (handle env req) w).1

/-- The hash in a digest is plain, and a manifest has the digest of its text. -/
structure Env.Hashes (env : Env) : Prop where
  plain : ∀ content, plainDigest env (env.calculateDigest content) = true
  parsed : ∀ raw mediaType m, env.parseManifest raw mediaType = some m → m.digest = env.calculateDigest raw

/-! ### The condition -/

/-- Another image of the repository links the blob. -/
def Shared (env : Env) (x : Key) (w₀ : World) (repository digest : String) : Prop :=
  ∃ b ∈ w₀.db.imageBlobs, b.key ≠ x ∧ b.repository = (sanitizeDockerKey env.text repository "").1 ∧
    cleanDigestHash env b.blobDigest = cleanDigestHash env digest

/-- If another image links the blob, it is stored already. -/
def Stored (env : Env) (x : Key) (w₀ : World) (repository digest : String) : Prop :=
  ∀ content, env.calculateDigest content = digest → Shared env x w₀ repository digest →
    w₀.file (blobPath env repository digest) = some content

/-- A request that does no harm to other images than `x`. -/
def Harmless (env : Env) (x : Key) (w₀ : World) : Request → Prop
  | .postUpload _ name q => plainID q.uuid = true ∧ Stored env x w₀ (parseRepositoryAndImage name).1 q.digest
  | .putUpload _ name id digest _ => plainID id = true ∧ Stored env x w₀ (parseRepositoryAndImage name).1 digest
  | .patchUpload _ _ id _ | .getUploadStatus _ _ id | .deleteUpload _ _ id => plainID id = true
  | .putManifest _ name _ _ _ => plainName (parseRepositoryAndImage name).2 = true
  | .deleteManifest _ _ name reference => Storage.hasPrefix reference "sha256:" = true →
      plainName (parseRepositoryAndImage name).2 = true ∧ plainDigest env reference = true
  | .deleteBlob _ _ name digest => plainDigest env digest = true ∧
      ¬Shared env x w₀ (parseRepositoryAndImage name).1 digest ∧
      ∀ b ∈ w₀.db.imageBlobs, b.key ≠ x → b.repository =
        (sanitizeDockerKey env.text (parseRepositoryAndImage name).1 "").1 → b.blobDigest ≠ dockerDigest env.text digest
  | _ => True

/-! ### What stays -/

/-- The tables of the accounts, and the rows of the other images. -/
structure SameRows (x : Key) (db db' : DockerDB) : Prop where
  accounts : db'.toAccounts = db.toAccounts
  tags : (db'.tags.rows.filter fun t => (t.repository, t.imageName) ≠ x) = db.tags.rows.filter fun t =>
    (t.repository, t.imageName) ≠ x
  manifests : (db'.manifests.rows.filter fun m => (m.repository, m.imageName) ≠ x) =
    db.manifests.rows.filter fun m => (m.repository, m.imageName) ≠ x
  links : (db'.imageBlobs.filter fun b => b.key ≠ x) = db.imageBlobs.filter fun b => b.key ≠ x

/-- The files that the other images show. -/
structure SameFiles (env : Env) (x : Key) (w₀ w : World) : Prop where
  blobFiles : ∀ r digest, (env.repos r).isSome = true → plainDigest env digest = true → Shared env x w₀ r digest →
    w.file (blobPath env r digest) = w₀.file (blobPath env r digest)
  manifestFiles : ∀ r imageName digest, (env.repos r).isSome = true → plainName imageName = true →
    plainDigest env digest = true →
    sanitizeDockerKey env.text r imageName ≠ x → w.file (manifestPath env r imageName digest) =
      w₀.file (manifestPath env r imageName digest)

/-- The part of the state that the other images show. -/
structure Untouched (env : Env) (x : Key) (w₀ w : World) : Prop extends SameFiles env x w₀ w where
  rows : SameRows x w₀.db w.db

theorem SameRows.refl (x : Key) (db : DockerDB) : SameRows x db db := ⟨rfl, rfl, rfl, rfl⟩

theorem SameRows.trans {x : Key} {db db₁ db₂ : DockerDB} (h : SameRows x db db₁) (h' : SameRows x db₁ db₂) :
    SameRows x db db₂ :=
  ⟨h'.accounts.trans h.accounts, h'.tags.trans h.tags, h'.manifests.trans h.manifests, h'.links.trans h.links⟩

/-! #### The tables -/

section Rows
variable {text : Text} {db db' : DockerDB} {repository imageName digest : String}

theorem filter_filter_own {α : Type} {l : List α} {p q : α → Bool} (h : ∀ a, p a = true → q a = true) :
    (l.filter q).filter p = l.filter p := by
  rw [List.filter_filter]
  refine List.filter_congr fun a _ => ?_
  cases hp : p a with
  | false => rfl
  | true => simp [h a hp]

theorem filter_map_own {α : Type} {l : List α} {p : α → Bool} {f : α → α} (hp : ∀ a, p (f a) = p a)
    (hf : ∀ a, p a = true → f a = a) :
    (l.map f).filter p = l.filter p := by
  induction l with
  | nil => rfl
  | cons a l ih =>
    rw [List.map_cons, List.filter_cons, List.filter_cons, hp]
    split
    · rename_i h
      rw [hf a h, ih]
    · exact ih

theorem filter_append_own {α : Type} {l : List α} {p : α → Bool} {a : α} (h : p a = false) :
    (l ++ [a]).filter p = l.filter p := by
  rw [List.filter_append, List.filter_cons_of_neg (by simp [h]), List.filter_nil, List.append_nil]

theorem recordDockerBlob_sameRows (x : Key) {size : Int} (h : recordDockerBlob text db repository digest size = .ok db') :
    SameRows x db db' := by
  unfold recordDockerBlob at h
  dsimp only at h
  split at h
  · cases h
    exact .refl x db
  · obtain ⟨blobs, -, h⟩ := bind_ok.1 h
    cases h
    exact ⟨rfl, rfl, rfl, rfl⟩

theorem recordDockerImageBlob_sameRows (h : recordDockerImageBlob text db repository imageName digest = .ok db') :
    SameRows (sanitizeDockerKey text repository imageName) db db' := by
  obtain ⟨-, h⟩ := require_bind_ok.1 h
  obtain ⟨-, -, h⟩ := bind_ok.1 h
  dsimp only at h
  split at h
  · cases h
    exact .refl _ db
  · cases h
    exact ⟨rfl, rfl, rfl, filter_append_own (decide_eq_false (not_not_intro rfl))⟩

theorem deleteDockerTag_sameRows {tag : String} (h : deleteDockerTag text db repository imageName tag = .ok db') :
    SameRows (sanitizeDockerKey text repository imageName) db db' := by
  obtain ⟨-, -, h⟩ := bind_ok.1 h
  obtain ⟨-, -, h⟩ := bind_ok.1 h
  obtain ⟨-, -, h⟩ := bind_ok.1 h
  obtain ⟨-, h⟩ := require_bind_ok.1 h
  cases h
  refine ⟨rfl, filter_filter_own fun t ht => ?_, rfl, rfl⟩
  have hne : (t.repository, t.imageName) ≠ sanitizeDockerKey text repository imageName := by simpa using ht
  simp only [DockerTag.key, Bool.not_eq_true', decide_eq_false_iff_not, Prod.mk.injEq]
  rintro ⟨hr, hi, -⟩
  exact hne (Prod.ext hr hi)

theorem deleteDockerManifest_sameRows (h : deleteDockerManifest text db repository imageName digest = .ok db') :
    SameRows (sanitizeDockerKey text repository imageName) db db' := by
  obtain ⟨-, -, h⟩ := bind_ok.1 h
  obtain ⟨-, -, h⟩ := bind_ok.1 h
  obtain ⟨-, h⟩ := require_bind_ok.1 h
  cases h
  refine ⟨rfl, filter_filter_own fun t ht => ?_, filter_filter_own fun m hm => ?_, filter_filter_own fun b hb => ?_⟩
  · have hne : (t.repository, t.imageName) ≠ sanitizeDockerKey text repository imageName := by simpa using ht
    by_contra hown
    simp only [Bool.not_eq_true, Bool.not_eq_false', Bool.and_eq_true, decide_eq_true_eq] at hown
    exact hne (Prod.ext hown.1.1 hown.1.2)
  · have hne : (m.repository, m.imageName) ≠ sanitizeDockerKey text repository imageName := by simpa using hm
    simp only [DockerManifest.key, Bool.not_eq_true', decide_eq_false_iff_not, Prod.mk.injEq]
    rintro ⟨hr, hi, -⟩
    exact hne (Prod.ext hr hi)
  · have hne : b.key ≠ sanitizeDockerKey text repository imageName := by simpa using hb
    by_contra hown
    simp only [Bool.not_eq_true, Bool.not_eq_false', Bool.and_eq_true, decide_eq_true_eq] at hown
    exact hne (Prod.ext hown.1.1 hown.1.2)

theorem deleteDockerBlob_sameRows {x : Key}
    (hfree : ∀ b ∈ db.imageBlobs, b.key ≠ x → b.repository = (sanitizeDockerKey text repository "").1 →
      b.blobDigest ≠ dockerDigest text digest)
    (h : deleteDockerBlob text db repository digest = .ok db') : SameRows x db db' := by
  obtain ⟨-, -, h⟩ := bind_ok.1 h
  cases h
  refine ⟨rfl, rfl, rfl, ?_⟩
  show (db.imageBlobs.filter _).filter _ = _
  rw [List.filter_filter]
  refine List.filter_congr fun b hb => ?_
  by_cases hkey : b.key = x
  · simp [hkey]
  · have := hfree b hb hkey
    by_cases hr : b.repository = (sanitizeDockerKey text repository "").1
    · simp [hkey, hr, this hr]
    · simp [hkey, hr]

theorem linkBlobs_own {m : ManifestWrite} {links : List ImageBlob} {x : Key} (hm : (m.repository, m.imageName) = x) :
    ((linkBlobs text m links).filter fun b => b.key ≠ x) = links.filter fun b => b.key ≠ x := by
  have hown : ∀ b : ImageBlob, b.repository = m.repository → b.imageName = m.imageName → b.key = x := by
    intro b hr hi
    rw [← hm]
    exact Prod.ext hr hi
  unfold linkBlobs
  dsimp only
  generalize ((m.blobDigests.map (dockerDigest text)).filter (· ≠ "")).dedup = digests
  have hstart : ((links.filter fun b => !(b.repository = m.repository && b.imageName = m.imageName && b.manifestDigest =
    m.digest)).filter
      fun b => b.key ≠ x) = links.filter fun b => b.key ≠ x := by
    refine filter_filter_own fun b hb => ?_
    by_contra h
    simp only [Bool.not_eq_true, Bool.not_eq_false', Bool.and_eq_true, decide_eq_true_eq] at h
    exact of_decide_eq_true hb (hown b h.1.1 h.1.2)
  rw [← hstart]
  generalize links.filter (fun b => !(b.repository = m.repository && b.imageName = m.imageName && b.manifestDigest =
    m.digest)) = start
  induction digests generalizing start with
  | nil => rfl
  | cons d digests ih =>
    have hnew : decide ((⟨m.repository, m.imageName, m.digest, d⟩ : ImageBlob).key ≠ x) = false :=
      decide_eq_false (not_not_intro hm)
    rw [List.foldl_cons, ih, List.filter_append, List.filter_cons_of_neg (by simp [hnew]), List.filter_nil, List.append_nil]
    refine filter_filter_own fun b hb => ?_
    by_contra h
    simp only [Bool.not_eq_true, Bool.not_eq_false', Bool.and_eq_true, decide_eq_true_eq] at h
    exact of_decide_eq_true hb (hown b h.1.1.1 h.1.1.2)

theorem upsertManifest_own {m : ManifestWrite} {manifests : Table DockerManifest.key} {x : Key}
    (hm : (m.repository, m.imageName) = x)
    (h : upsertManifest db m = .ok manifests) : (manifests.rows.filter fun r => (r.repository, r.imageName) ≠ x) =
      db.manifests.rows.filter fun r => (r.repository, r.imageName) ≠ x := by
  unfold upsertManifest at h
  split at h
  · cases h
    refine filter_map_own (fun r => ?_) fun r hr => ?_
    · split <;> rfl
    · rw [if_neg]
      intro hkey
      obtain ⟨hr', hrest⟩ := Prod.mk.inj hkey
      obtain ⟨hi, -⟩ := Prod.mk.inj hrest
      exact of_decide_eq_true hr (hm ▸ Prod.ext hr' hi)
  · rw [(Table.insert_ok h).2]
    exact filter_append_own (decide_eq_false (not_not_intro hm))

theorem upsertTag_own {m : ManifestWrite} {tag : String} {tags : Table DockerTag.key} {x : Key}
    (hm : (m.repository, m.imageName) = x)
    (h : upsertTag db m tag = .ok tags) : (tags.rows.filter fun t => (t.repository, t.imageName) ≠ x) =
      db.tags.rows.filter fun t => (t.repository, t.imageName) ≠ x := by
  unfold upsertTag at h
  split at h
  · cases h
    rfl
  · split at h
    · cases h
      refine filter_map_own (fun t => ?_) fun t ht => ?_
      · split <;> rfl
      · rw [if_neg]
        intro hkey
        obtain ⟨hr', hrest⟩ := Prod.mk.inj hkey
        obtain ⟨hi, -⟩ := Prod.mk.inj hrest
        exact of_decide_eq_true ht (hm ▸ Prod.ext hr' hi)
    · rw [(Table.insert_ok h).2]
      exact filter_append_own (decide_eq_false (not_not_intro hm))

theorem putDockerManifestTx_ok {m : ManifestWrite} {tag : String} {allowMirrorCreate : Bool}
    (h : putDockerManifestTx text db m tag allowMirrorCreate = .ok db') :
    ∃ images manifests tags, imageForManifest db m allowMirrorCreate = .ok images ∧
      upsertManifest { db with images } m = .ok manifests ∧ upsertTag { db with images } m tag = .ok tags ∧
      db' = { db with images, manifests, tags, imageBlobs := linkBlobs text m db.imageBlobs } := by
  obtain ⟨images, himages, h⟩ := bind_ok.1 h
  obtain ⟨-, -, h⟩ := bind_ok.1 h
  dsimp only at h
  split at h
  · obtain ⟨-, -, h⟩ := bind_ok.1 h
    obtain ⟨manifests, hmanifests, h⟩ := bind_ok.1 h
    obtain ⟨tags, htags, h⟩ := bind_ok.1 h
    cases h
    exact ⟨images, manifests, tags, himages, hmanifests, htags, rfl⟩
  · obtain ⟨manifests, hmanifests, h⟩ := bind_ok.1 h
    obtain ⟨tags, htags, h⟩ := bind_ok.1 h
    cases h
    exact ⟨images, manifests, tags, himages, hmanifests, htags, rfl⟩

theorem imageForManifest_local {m : ManifestWrite} {images : Table DockerImage.key}
    (h : imageForManifest db m false = .ok images) :
    images = db.images := by
  unfold imageForManifest at h
  split at h
  · cases h
  · split at h
    · cases h
    · split at h
      · cases h
      · exact (Except.ok.inj h).symm

theorem putDockerManifest_sameRows {m : ManifestWrite} {tag username : String} {x : Key}
    (hx : sanitizeDockerKey text m.repository m.imageName = x)
    (h : putDockerManifest text db m tag username false = .ok db') :
    SameRows x db db' := by
  subst hx
  obtain ⟨⟨write, tag'⟩, hwrite, h⟩ := bind_ok.1 h
  obtain ⟨-, hwrite⟩ := require_bind_ok.1 hwrite
  cases hwrite
  obtain ⟨images, manifests, tags, himages, hmanifests, htags, rfl⟩ := putDockerManifestTx_ok h
  obtain rfl := imageForManifest_local himages
  exact ⟨rfl, upsertTag_own rfl htags, upsertManifest_own rfl hmanifests, linkBlobs_own rfl⟩

end Rows

/-! #### The files -/

theorem SameFiles.refl (env : Env) (x : Key) (w : World) :
    SameFiles env x w w := ⟨fun _ _ _ _ _ => rfl, fun _ _ _ _ _ _ _ => rfl⟩

theorem Untouched.refl (env : Env) (x : Key) (w : World) : Untouched env x w w := ⟨.refl env x w, .refl x w.db⟩

section Files
variable {env : Env} {x : Key} {w₀ w : World} {r digest imageName id : String} {content : Option String}

/-- A file that the other images do not show, or the content that it had. -/
structure Free (env : Env) (x : Key) (w₀ : World) (path : String) (content : Option String) : Prop where
  blob : ∀ r digest, (env.repos r).isSome = true → plainDigest env digest = true → Shared env x w₀ r digest →
    blobPath env r digest = path → content = w₀.file path
  manifest : ∀ r imageName digest, (env.repos r).isSome = true → plainName imageName = true →
    plainDigest env digest = true → sanitizeDockerKey env.text r imageName ≠ x → manifestPath env r imageName digest ≠ path

theorem free_staging (henv : env.Named) (hr : (env.repos r).isSome = true) (hid : plainID id = true) :
    Free env x w₀ (stagingPath env r id) content := by
  have hr := henv.plain r hr
  refine ⟨fun r' digest hr' hd _ hpath => ?_, fun r' imageName digest hr' hname hd _ hpath => ?_⟩
  · exact absurd hpath.symm (stagingPath_ne_blobPath hr (henv.plain r' hr') hid hd)
  · exact absurd hpath.symm (stagingPath_ne_manifestPath hr (henv.plain r' hr') hid hname hd)

theorem free_manifest (henv : env.Named) (hr : (env.repos r).isSome = true) (hname : plainName imageName = true)
    (hd : plainDigest env digest = true) (hx : sanitizeDockerKey env.text r imageName = x) :
    Free env x w₀ (manifestPath env r imageName digest) content := by
  have hr := henv.plain r hr
  refine ⟨fun r' digest' hr' hd' _ hpath => ?_, fun r' imageName' digest' hr' hname' hd' hne hpath => ?_⟩
  · exact absurd hpath.symm (manifestPath_ne_blobPath hr (henv.plain r' hr') hname hd hd')
  · obtain ⟨rfl, rfl, -⟩ := manifestPath_injective (henv.plain r' hr') hr hname' hname hd' hd hpath
    exact hne hx

theorem free_blob (henv : env.Named) (hr : (env.repos r).isSome = true) (hd : plainDigest env digest = true)
    (hshared : Shared env x w₀ r digest → content = w₀.file (blobPath env r digest)) :
    Free env x w₀ (blobPath env r digest) content := by
  have hr := henv.plain r hr
  refine ⟨fun r' digest' hr' hd' hs hpath => hshared ?_, fun r' imageName' digest' hr' hname' hd' _ hpath => ?_⟩
  · obtain ⟨rfl, hhash⟩ := blobPath_injective (henv.plain r' hr') hr hd' hd hpath
    obtain ⟨b, hb, hne, hrepo, hsame⟩ := hs
    exact ⟨b, hb, hne, hrepo, hsame.trans hhash⟩
  · exact absurd hpath (manifestPath_ne_blobPath (henv.plain r' hr') hr hname' hd' hd)

theorem SameFiles.file (hw : SameFiles env x w₀ w) {w' : World} {path : String}
    (hfile : ∀ p, w'.file p = if p = path then content else w.file p) (hfree : Free env x w₀ path content) :
      SameFiles env x w₀ w' := by
  refine ⟨fun r digest hr hd hshared => ?_, fun r imageName digest hr hname hd hkey => ?_⟩
  · rw [hfile]
    split
    · rename_i hpath
      rw [hfree.blob r digest hr hd hshared hpath, hpath]
    · exact hw.blobFiles r digest hr hd hshared
  · rw [hfile, if_neg (hfree.manifest r imageName digest hr hname hd hkey)]
    exact hw.manifestFiles r imageName digest hr hname hd hkey

theorem SameFiles.congr (hw : SameFiles env x w₀ w) {w' : World} (hfiles : ∀ p, w'.file p = w.file p) :
    SameFiles env x w₀ w' :=
  ⟨fun r digest hr hd hs => (hfiles _).trans (hw.blobFiles r digest hr hd hs),
    fun r imageName digest hr hn hd hk => (hfiles _).trans (hw.manifestFiles r imageName digest hr hn hd hk)⟩

theorem Untouched.writeFile (hw : Untouched env x w₀ w) {path content : String}
    (hfree : Free env x w₀ path (some content)) :
    Untouched env x w₀ (w.writeFile path content) :=
  ⟨hw.toSameFiles.file (fun p => w.file_writeFile path content p) hfree, hw.rows⟩

theorem Untouched.removeFile (hw : Untouched env x w₀ w) {path : String} (hfree : Free env x w₀ path none) :
    Untouched env x w₀ (w.removeFile path) :=
  ⟨hw.toSameFiles.file (fun p => w.file_removeFile path p) hfree, hw.rows⟩

theorem Untouched.with (hw : Untouched env x w₀ w) {w' : World} (hrows : SameRows x w.db w'.db)
    (hfiles : ∀ p, w'.file p = w.file p) :
    Untouched env x w₀ w' :=
  ⟨hw.toSameFiles.congr hfiles, hw.rows.trans hrows⟩

theorem Untouched.mkdirAll (hw : Untouched env x w₀ w) (dir : String) : Untouched env x w₀ (w.mkdirAll dir) :=
  hw.with (.refl x _) fun _ => rfl

end Files

/-! ### The requests -/

section Rules
variable {α β : Type} {I : World → Prop} {Q : α → Prop} {R : β → Prop} {p : Handler α} {k : α → Handler β}

/-- Every step of a program keeps `I`, and what it returns is as `Q` says. -/
def Spares (I : World → Prop) (p : Handler α) (Q : α → Prop) : Prop :=
  ∀ w, p.Relies (fun _ _ => True) (fun _ _ => True) I (fun _ _ => True) (fun r _ => ∀ a, r = .ok a → Q a) w

theorem Spares.and {J : World → Prop} {S : α → Prop} (hp : Spares I p Q) (hp' : Spares J p S) :
    Spares (fun w => I w ∧ J w) p Q := by
  have hand : ∀ {s : World}, p.Relies (fun _ _ => True) (fun _ _ => True) I (fun _ _ => True)
      (fun r _ => ∀ a, r = .ok a → Q a) s →
      p.Relies (fun _ _ => True) (fun _ _ => True) J (fun _ _ => True) (fun r _ => ∀ a, r = .ok a → S a) s →
      p.Relies (fun _ _ => True) (fun _ _ => True) (fun w => I w ∧ J w) (fun _ _ => True)
        (fun r _ => ∀ a, r = .ok a → Q a) s := by
    clear hp hp'
    induction p with
    | done r => exact fun h _ => h
    | step label act next ih =>
      intro s h h' t ht hinv fail hgood
      obtain ⟨hI, -, hnext⟩ := h t ht hinv.1 fail hgood
      obtain ⟨hJ, -, hnext'⟩ := h' t ht hinv.2 fail hgood
      exact ⟨⟨hI, hJ⟩, trivial, ih fail t hnext hnext'⟩
  exact fun w => hand (hp w) (hp' w)

theorem Spares.both {S : α → Prop} (hp : Spares I p Q) (hp' : Spares I p S) : Spares I p fun a => Q a ∧ S a := by
  have hand : ∀ {s : World}, p.Relies (fun _ _ => True) (fun _ _ => True) I (fun _ _ => True)
      (fun r _ => ∀ a, r = .ok a → Q a) s →
      p.Relies (fun _ _ => True) (fun _ _ => True) I (fun _ _ => True) (fun r _ => ∀ a, r = .ok a → S a) s →
      p.Relies (fun _ _ => True) (fun _ _ => True) I (fun _ _ => True) (fun r _ => ∀ a, r = .ok a → Q a ∧ S a) s := by
    clear hp hp'
    induction p with
    | done r => exact fun h h' a ha => ⟨h a ha, h' a ha⟩
    | step label act next ih =>
      intro s h h' t ht hinv fail hgood
      obtain ⟨hI, -, hnext⟩ := h t ht hinv fail hgood
      exact ⟨hI, trivial, ih fail t hnext (h' t ht hinv fail hgood).2.2⟩
  exact fun w => hand (hp w) (hp' w)

theorem Spares.exec (hp : Spares I p Q) {w : World} (hw : I w) (fault : Step → Bool) :
    I (Proc.exec fault p w).2 ∧ ∀ a, (Proc.exec fault p w).1 = .ok a → Q a :=
  (hp w).exec (fun _ => trivial) hw fault

theorem Spares.done {r : Except DockerError α} (h : ∀ a, r = .ok a → Q a) : Spares I (.done r) Q := fun _ => h

theorem Spares.pure {a : α} (h : Q a) : Spares I (.done (.ok a)) Q := fun _ _ hb => Except.ok.inj hb ▸ h

theorem Spares.throw (e : DockerError) : Spares I (Proc.throw e) Q := fun _ _ ha => nomatch ha

theorem Spares.bind (hp : Spares I p Q) (hk : ∀ a, Q a → Spares I (k a) R) : Spares I (p.bind k) R :=
  fun w => (hp w).bind (fun a w ha => hk a (ha a rfl) w) fun _ _ _ _ hb => nomatch hb

theorem Spares.attempt (hp : Spares I p Q) : Spares I p.attempt fun _ => True :=
  fun w => .attempt ((hp w).mono fun _ _ _ _ _ => trivial)

theorem Spares.query {f : World → Except DockerError α} (h : ∀ t a, I t → f t = .ok a → Q a) :
    Spares I (query f) Q :=
  fun _ => .ask (fun _ => trivial) (fun _ _ _ _ _ ha => nomatch ha) fun t a _ hI hf _ hb => Except.ok.inj hb ▸ h t a hI hf

theorem Spares.query_any (f : World → Except DockerError α) : Spares I (Docker.query f) fun _ => True :=
  .query fun _ _ _ _ => trivial

theorem Spares.tell {step : Step} {e : DockerError} {f : World → Except DockerError World}
    (h : ∀ t t', I t → f t = .ok t' → I t') :
    Spares I (Proc.tell step e f) fun _ => True :=
  fun _ => .tell (fun _ => trivial) (fun _ _ _ _ _ _ => trivial) fun t t' _ hI _ hf =>
    ⟨h t t' hI hf, trivial, fun _ _ => trivial⟩

theorem Spares.write {f : World → Except DockerError World} (h : ∀ t t', I t → f t = .ok t' → I t') :
    Spares I (Docker.write f) fun _ => True :=
  .tell h

theorem Spares.write_pure {f : World → World} (h : ∀ t, I t → I (f t)) :
    Spares I (Docker.write fun w => Pure.pure (f w)) fun _ => True :=
  .tell fun t _ hI ht => Except.ok.inj ht ▸ h t hI

theorem Spares.ofExcept {r : Except DockerError α} (h : ∀ a, r = .ok a → Q a) : Spares I (Proc.ofExcept r) Q := .done h

theorem Spares.ofExcept_any (r : Except DockerError α) :
    Spares I (Proc.ofExcept r) fun _ => True := .ofExcept fun _ _ => trivial

theorem Spares.require_bind {c : Prop} [Decidable c] {e : DockerError} {k : Unit → Handler β}
    (h : c → Spares I (k ()) R) :
    Spares I ((Proc.ofExcept (require c e)).bind k) R := by
  refine Spares.bind (Q := fun _ => c) (.ofExcept fun a ha => ?_) fun _ hc => h hc
  exact require_ok.1 ha

end Rules

section Handlers
variable {env : Env} {x : Key} {w₀ : World}

attribute [local irreducible] canReadDocker parseRepositoryAndImage trimSlash

theorem authorized_spares {I : World → Prop} (cred : Credentials) (name : String) (action : Action) :
    Spares I (authorized env cred name action)
      fun a => a.1.name = (parseRepositoryAndImage name).1 ∧ (env.repos a.1.name).isSome = true := by
  have hrepo : Spares I (Proc.ofExcept (orError (env.getRepo (parseRepositoryAndImage name).1) .nameUnknown) : Handler
    Repository)
      fun repo => repo.name = (parseRepositoryAndImage name).1 ∧ (env.repos repo.name).isSome = true := by
    refine .ofExcept fun repo h => ?_
    obtain ⟨config, hconfig, rfl⟩ := Option.map_eq_some_iff.1 (orError_ok.1 h)
    exact ⟨rfl, by
      show (env.repos (parseRepositoryAndImage name).1).isSome = true
      rw [hconfig]
      rfl⟩
  refine hrepo.bind fun repo hrepo => ?_
  exact (Spares.query_any _).bind fun _ _ => .pure hrepo

theorem mutateImage_spares {I : World → Prop} {name : String} {handler : Handler Served}
    (h : Spares I handler fun _ => True) :
    Spares I (mutateImage env name handler) fun _ => True := by
  unfold mutateImage
  dsimp only
  split
  · exact h
  · exact (Spares.query_any _).bind fun _ _ => h

theorem linkBlob_spares (step : Step) {repository imageName : String} (digest : String) (size : Int) (origin : Origin)
    (hx : sanitizeDockerKey env.text repository imageName = x) :
    Spares (Untouched env x w₀) (linkBlob env step repository imageName digest size origin) fun _ => True := by
  have hrecord : Spares (Untouched env x w₀) (write fun w => w.with (recordDockerBlob env.text w.db repository digest size))
      fun _ => True := by
    refine .write fun t t' hI h => ?_
    obtain ⟨db, hdb, rfl⟩ := map_ok.1 h
    exact hI.with (recordDockerBlob_sameRows x hdb) fun _ => rfl
  refine hrecord.bind fun _ _ => .tell fun t t' hI h => ?_
  obtain ⟨db, hdb, rfl⟩ := map_ok.1 h
  exact hI.with (hx ▸ recordDockerImageBlob_sameRows hdb) fun _ => rfl

theorem askSource_spares (user : User) (source mountDigest : String) :
    Spares (Untouched env x w₀) (askSource env user source mountDigest) fun _ => True := by
  unfold askSource
  dsimp only
  split
  · exact .pure trivial
  · split
    · exact .pure trivial
    · have hask : ∀ repository, Spares (Untouched env x w₀) (Proc.call .query .unavailable fun w =>
          .ok (canReadDocker env.text w.db user repository source,
            { w with origins := .asked w.db user repository source :: w.origins })) fun _ => True := by
        intro repository w
        refine .call (fun _ => trivial) (fun _ _ _ _ _ _ => trivial) fun t a t' _ hI _ h => ?_
        cases h
        exact ⟨hI.with (.refl x _) fun _ => rfl, trivial, fun _ _ => trivial⟩
      refine (hask _).bind fun canReadSource _ => ?_
      split
      · refine (Spares.query_any _).bind fun _ _ => Spares.require_bind fun _ => ?_
        refine (Spares.query_any _).bind fun _ _ => ?_
        exact (Spares.query_any _).bind fun _ _ => .pure trivial
      · exact .pure trivial

variable (henv : env.Named) (hhash : env.Hashes)
include henv hhash

theorem commit_untouched {w : World} (hw : Untouched env x w₀ w) {repository digest content : String}
    (hr : (env.repos repository).isSome = true) (hdigest : env.calculateDigest content = digest)
    (hstored : Stored env x w₀ repository digest) :
    Untouched env x w₀ (w.writeFile (blobPath env repository digest) content) :=
  hw.writeFile (free_blob henv hr (hdigest ▸ hhash.plain content) fun hs => (hstored content hdigest hs).symm)

theorem startUpload_spares {repository imageName : String} {q : UploadQuery} (hr : (env.repos repository).isSome = true)
    (hx : sanitizeDockerKey env.text repository imageName = x) (hid : plainID q.uuid = true)
    (hstored : Stored env x w₀ repository q.digest) :
    Spares (Untouched env x w₀) (startUpload env repository imageName q) fun _ => True := by
  unfold startUpload
  refine (Spares.write_pure fun t hI => hI.mkdirAll _).bind fun _ _ => ?_
  split
  · refine Spares.require_bind fun hdigest => ?_
    refine (Spares.query_any _).bind fun _ _ => ?_
    have hcommit : Spares (Untouched env x w₀) (write (commitContent env repository q.digest q.body)) fun _ => True := by
      refine .write fun t t' hI h => ?_
      obtain ⟨-, -, h⟩ := bind_ok.1 h
      obtain ⟨-, h⟩ := require_bind_ok.1 h
      obtain rfl := Except.ok.inj h
      exact commit_untouched henv hhash (hI.mkdirAll _) hr hdigest hstored
    exact hcommit.bind fun _ _ => (linkBlob_spares _ _ _ _ hx).bind fun _ _ => .pure trivial
  · refine (Spares.write_pure fun t hI => ?_).bind fun _ _ => .pure trivial
    split
    · exact hI
    · exact hI.writeFile (free_staging henv hr hid)

theorem handlePostUpload_spares (cred : Credentials) {name : String} {q : UploadQuery} (hx : imageOf env.text name = x)
    (hid : plainID q.uuid = true) (hstored : Stored env x w₀ (parseRepositoryAndImage name).1 q.digest) :
    Spares (Untouched env x w₀) (handlePostUpload env cred name q) fun _ => True := by
  refine (authorized_spares cred name .push).bind fun ⟨repo, user⟩ ⟨hname, hr⟩ => ?_
  dsimp only at hname hr
  have hkey : sanitizeDockerKey env.text repo.name (parseRepositoryAndImage name).2 = x := by
    rw [hname]
    exact hx
  have hmount : ∀ mountable : Bool, Spares (Untouched env x w₀)
    (mountOrUpload env repo user (parseRepositoryAndImage name).2
    q mountable)
      fun _ => True := by
    intro mountable
    unfold mountOrUpload
    split
    · split
      · exact .throw _
      · refine (Spares.query_any _).bind fun _ _ => ?_
        exact (linkBlob_spares _ _ _ _ hkey).bind fun _ _ => .pure trivial
    · exact startUpload_spares henv hhash hr hkey hid (hname ▸ hstored)
  dsimp only
  split
  · exact (askSource_spares user q.source q.mount).bind fun mountable _ => hmount mountable
  · exact hmount false

omit hhash in
theorem appendStaged_spares {repository id : String} (body : String) (hr : (env.repos repository).isSome = true)
    (hid : plainID id = true) :
    Spares (Untouched env x w₀) (appendStaged env repository id body) fun _ => True := by
  refine .tell fun t t' hI h => ?_
  obtain ⟨-, h⟩ := require_bind_ok.1 h
  obtain rfl := Except.ok.inj h
  exact hI.writeFile (free_staging henv hr hid)

omit hhash in
theorem handlePatchUpload_spares (cred : Credentials) (name : String) {id : String} (body : String)
    (hid : plainID id = true) :
    Spares (Untouched env x w₀) (handlePatchUpload env cred name id body) fun _ => True :=
  (authorized_spares cred name .push).bind fun _ ⟨_, hr⟩ => (appendStaged_spares henv body hr hid).bind fun _ _ =>
    .pure trivial

omit hhash in
theorem handleGetUploadStatus_spares (cred : Credentials) (name : String) {id : String} (hid : plainID id = true) :
    Spares (Untouched env x w₀) (handleGetUploadStatus env cred name id) fun _ => True :=
  (authorized_spares cred name .push).bind fun _ ⟨_, hr⟩ => (appendStaged_spares henv "" hr hid).bind fun _ _ =>
    .pure trivial

omit hhash in
theorem handleDeleteUpload_spares (cred : Credentials) (name : String) {id : String} (hid : plainID id = true) :
    Spares (Untouched env x w₀) (handleDeleteUpload env cred name id) fun _ => True := by
  refine (authorized_spares cred name .push).bind fun ⟨repo, user⟩ ⟨_, hr⟩ => ?_
  refine (Spares.attempt (.write_pure fun t hI => ?_)).bind fun _ _ => .pure trivial
  split
  · exact hI.removeFile (free_staging henv hr hid)
  · exact hI

theorem handlePutUpload_spares (cred : Credentials) {name id digest : String} (body : String) (hx : imageOf env.text name = x)
    (hid : plainID id = true) (hstored : Stored env x w₀ (parseRepositoryAndImage name).1 digest) :
    Spares (Untouched env x w₀) (handlePutUpload env cred name id digest body) fun _ => True := by
  refine Spares.require_bind fun _ => (authorized_spares cred name .push).bind fun ⟨repo, user⟩ ⟨hname, hr⟩ => ?_
  dsimp only at hname hr
  have hkey : sanitizeDockerKey env.text repo.name (parseRepositoryAndImage name).2 = x := by
    rw [hname]
    exact hx
  refine (appendStaged_spares henv body hr hid).bind fun _ _ => ?_
  refine (Spares.query_any _).bind fun content _ => ?_
  split
  · exact (Spares.write_pure fun t hI => hI.removeFile (free_staging henv hr hid)).bind fun _ _ => .throw _
  · refine (Spares.query_any _).bind fun _ _ => ?_
    have hcommit : Spares (Untouched env x w₀) (write (commitBlob env repo.name id digest)) fun _ => True := by
      refine .write fun t t' hI h => ?_
      obtain ⟨-, -, h⟩ := bind_ok.1 h
      obtain ⟨content, -, h⟩ := bind_ok.1 h
      obtain ⟨hdigest, h⟩ := require_bind_ok.1 h
      obtain rfl := Except.ok.inj h
      exact commit_untouched henv hhash ((hI.mkdirAll _).removeFile (free_staging henv hr hid)) hr hdigest (hname ▸ hstored)
    exact hcommit.bind fun _ _ => (linkBlob_spares _ _ _ _ hkey).bind fun _ _ => .pure trivial

theorem handlePutManifest_spares (cred : Credentials) {name : String} (reference body contentType : String)
    (hx : imageOf env.text name = x) (hplain : plainName (parseRepositoryAndImage name).2 = true) :
    Spares (Untouched env x w₀) (handlePutManifest env cred name reference body contentType) fun _ => True := by
  refine Spares.require_bind fun _ => (authorized_spares cred name .push).bind fun ⟨repo, user⟩ ⟨hname, hr⟩ => ?_
  dsimp only at hname hr
  have hkey : sanitizeDockerKey env.text repo.name (parseRepositoryAndImage name).2 = x := by
    rw [hname]
    exact hx
  have hparse : Spares (Untouched env x w₀)
      (Proc.ofExcept (orError (env.parseManifest body contentType) .manifestInvalid) : Handler _)
      fun parsed => parsed.digest = env.calculateDigest body :=
    .ofExcept fun parsed h => hhash.parsed _ _ _ (orError_ok.1 h)
  refine hparse.bind fun parsed hparsed => Spares.require_bind fun _ => ?_
  refine (Spares.ofExcept_any _).bind fun ⟨tag, version⟩ _ => ?_
  refine (Spares.query_any _).bind fun _ _ => ?_
  refine (Spares.query_any _).bind fun present _ => Spares.require_bind fun _ => ?_
  refine (Spares.query_any _).bind fun _ _ => ?_
  have hfree : ∀ content, Free env x w₀ (manifestPath env repo.name (parseRepositoryAndImage name).2 parsed.digest)
      content :=
    fun _ => free_manifest henv hr hplain (hparsed ▸ hhash.plain body) hkey
  dsimp only
  split
  · exact (Spares.write_pure fun t hI => hI.with (.refl x _) fun _ => rfl).bind fun _ _ => .pure trivial
  · refine (Spares.query_any _).bind fun existed _ => ?_
    refine (Spares.write_pure fun t hI => hI.writeFile (hfree _)).bind fun _ _ => ?_
    refine (Spares.attempt (.tell fun t t' hI h => ?_)).bind fun r _ => ?_
    · obtain ⟨db, hdb, rfl⟩ := map_ok.1 h
      refine hI.with (putDockerManifest_sameRows ?_ hdb) fun _ => rfl
      exact hkey
    · split
      · exact .pure trivial
      · split
        · exact (Spares.write_pure fun t hI => hI.removeFile (hfree _)).bind fun _ _ => .throw _
        · exact .throw _

omit hhash in
theorem handleDeleteManifest_spares (cred : Credentials) (path : String) {name reference : String}
    (hx : imageOf env.text name = x) (hplain : Storage.hasPrefix reference "sha256:" = true →
      plainName (parseRepositoryAndImage name).2 = true ∧ plainDigest env reference = true) :
    Spares (Untouched env x w₀) (handleDeleteManifest env cred path name reference) fun _ => True := by
  refine (authorized_spares cred name _).bind fun ⟨repo, user⟩ ⟨hname, hr⟩ => ?_
  dsimp only at hname hr
  have hkey : sanitizeDockerKey env.text repo.name (parseRepositoryAndImage name).2 = x := by
    rw [hname]
    exact hx
  dsimp only
  split
  · rename_i hprefix
    obtain ⟨hplain, hdigest⟩ := hplain hprefix
    refine (Spares.write fun t t' hI h => ?_).bind fun _ _ => ?_
    · obtain ⟨db, hdb, rfl⟩ := map_ok.1 h
      exact hI.with (hkey ▸ deleteDockerManifest_sameRows hdb) fun _ => rfl
    · exact (Spares.attempt (.write_pure fun t hI => hI.removeFile (free_manifest henv hr hplain hdigest hkey))).bind
        fun _ _ => .pure trivial
  · refine (Spares.write fun t t' hI h => ?_).bind fun _ _ => .pure trivial
    obtain ⟨db, hdb, rfl⟩ := map_ok.1 h
    exact hI.with (hkey ▸ deleteDockerTag_sameRows hdb) fun _ => rfl

omit hhash in
theorem handleDeleteBlob_spares (cred : Credentials) (path : String) {name digest : String}
    (hdigest : plainDigest env digest = true) (hshared : ¬Shared env x w₀ (parseRepositoryAndImage name).1 digest)
    (hlinks : ∀ b ∈ w₀.db.imageBlobs, b.key ≠ x → b.repository =
      (sanitizeDockerKey env.text (parseRepositoryAndImage name).1 "").1 → b.blobDigest ≠ dockerDigest env.text digest) :
    Spares (Untouched env x w₀) (handleDeleteBlob env cred path name digest) fun _ => True := by
  refine (authorized_spares cred name _).bind fun ⟨repo, user⟩ ⟨hname, hr⟩ => ?_
  dsimp only at hname hr
  refine (Spares.write fun t t' hI h => ?_).bind fun _ _ => ?_
  · obtain ⟨db, hdb, rfl⟩ := map_ok.1 h
    refine hI.with (deleteDockerBlob_sameRows (fun b hb hne hrepo => ?_) hdb) fun _ => rfl
    -- the links of the other images are those of the start
    have hmem : b ∈ t.db.imageBlobs.filter fun b => b.key ≠ x := List.mem_filter.2 ⟨hb, decide_eq_true hne⟩
    rw [hI.rows.links] at hmem
    exact hlinks b (List.mem_of_mem_filter hmem) hne (hname ▸ hrepo)
  · refine (Spares.write_pure fun t hI => hI.removeFile ?_).bind fun _ _ => .pure trivial
    exact free_blob henv hr hdigest fun hs => absurd (hname ▸ hs) hshared

theorem handle_spares {req : Request} {name : String} (hname : req.changes = some name) (hx : imageOf env.text name = x)
    (hreq : Harmless env x w₀ req) : Spares (Untouched env x w₀) (handle env req) fun _ => True := by
  cases req with
  | putManifest cred name reference body contentType =>
    cases hname
    exact mutateImage_spares (handlePutManifest_spares henv hhash cred reference body contentType hx hreq)
  | postUpload cred name q =>
    cases hname
    exact mutateImage_spares (handlePostUpload_spares henv hhash cred hx hreq.1 hreq.2)
  | patchUpload cred name id body => exact mutateImage_spares (handlePatchUpload_spares henv cred name body hreq)
  | putUpload cred name id digest body =>
    cases hname
    exact mutateImage_spares (handlePutUpload_spares henv hhash cred body hx hreq.1 hreq.2)
  | getUploadStatus cred name id => exact mutateImage_spares (handleGetUploadStatus_spares henv cred name hreq)
  | deleteUpload cred name id => exact mutateImage_spares (handleDeleteUpload_spares henv cred name hreq)
  | deleteManifest cred path name reference =>
    cases hname
    exact mutateImage_spares (handleDeleteManifest_spares henv cred path hx hreq)
  | deleteBlob cred path name digest =>
    cases hname
    exact mutateImage_spares (handleDeleteBlob_spares henv cred path hreq.1 hreq.2.1 hreq.2.2)
  | tagsList | getManifest | getBlob | approve | deleteImage | deleteRepository | administer => cases hname

end Handlers

/-! ### Pulling -/

section Accounts
variable {text : Text} {db db' : DockerDB}

theorem getDockerImageAccess_accounts (h : db.toAccounts = db'.toAccounts) (repository imageName username : String) :
    getDockerImageAccess text db repository imageName username = getDockerImageAccess text db' repository imageName
      username := by
  obtain ⟨accounts, _⟩ := db
  obtain ⟨accounts', _⟩ := db'
  obtain rfl : accounts = accounts' := h
  rfl

theorem dockerLocks_accounts (h : db.toAccounts = db'.toAccounts) (repository imageName digest : String) :
    dockerLocks text db repository imageName digest = dockerLocks text db' repository imageName digest := by
  obtain ⟨accounts, _⟩ := db
  obtain ⟨accounts', _⟩ := db'
  obtain rfl : accounts = accounts' := h
  rfl

theorem ensureResourceMutable_accounts (h : db.toAccounts = db'.toAccounts) (repository imageName digest : String)
    (allVersions : Bool) :
    ensureResourceMutable text db repository imageName digest allVersions =
      ensureResourceMutable text db' repository imageName digest allVersions := by
  obtain ⟨accounts, _⟩ := db
  obtain ⟨accounts', _⟩ := db'
  obtain rfl : accounts = accounts' := h
  rfl

theorem canReadDocker_accounts (h : db.toAccounts = db'.toAccounts) (user : User) (repo : Repository) (path : String) :
    canReadDocker text db user repo path = canReadDocker text db' user repo path := by
  obtain ⟨accounts, _⟩ := db
  obtain ⟨accounts', _⟩ := db'
  obtain rfl : accounts = accounts' := h
  rfl

theorem tagVisible_accounts (text : Text) (h : db.toAccounts = db'.toAccounts) (username : String) (t : DockerTag) :
    tagVisible db (viewerID text db.lockDB username) t = tagVisible db' (viewerID text db'.lockDB username) t := by
  obtain ⟨accounts, _⟩ := db
  obtain ⟨accounts', _⟩ := db'
  obtain rfl : accounts = accounts' := h
  rfl

end Accounts

theorem find?_own {α κ : Type} [DecidableEq κ] {key : α → κ} {t t' : Table key} {q : α → Bool} {k : κ}
    (h : t.rows.filter q = t'.rows.filter q) (hk : ∀ a, key a = k → q a = true) : t.find? k = t'.find? k := by
  have hfilter : ∀ u : Table key, u.find? k = (u.rows.filter q).find? fun a => key a = k := by
    intro u
    unfold Table.find?
    rw [List.find?_filter]
    congr 1
    funext a
    by_cases ha : key a = k
    · simp [ha, hk a ha]
    · simp [ha]
  rw [hfilter t, hfilter t', h]

section Pull
variable {env : Env} {x y : Key} {w₀ w : World} {repository imageName : String}

theorem getDockerTag_own (hrows : SameRows x w₀.db w.db) (hy : sanitizeDockerKey env.text repository imageName ≠ x)
    (tag : String) :
    getDockerTag env.text w.db repository imageName tag = getDockerTag env.text w₀.db repository imageName tag :=
  find?_own hrows.tags fun t ht => decide_eq_true fun h => hy (by
    rw [← h]
    exact Prod.ext (congrArg (·.1) ht).symm (congrArg (·.2.1) ht).symm)

theorem getDockerManifest_own (hrows : SameRows x w₀.db w.db) (hy : sanitizeDockerKey env.text repository imageName ≠ x)
    (digest : String) :
    getDockerManifest env.text w.db repository imageName digest = getDockerManifest env.text w₀.db repository imageName
      digest :=
  find?_own hrows.manifests fun m hm => decide_eq_true fun h => hy (by
    rw [← h]
    exact Prod.ext (congrArg (·.1) hm).symm (congrArg (·.2.1) hm).symm)

theorem referencesBlob_own (hrows : SameRows x w₀.db w.db) (hy : sanitizeDockerKey env.text repository imageName ≠ x)
    (digest : String) :
    dockerImageReferencesBlob env.text w.db repository imageName digest =
      dockerImageReferencesBlob env.text w₀.db repository imageName digest := by
  have hfilter : ∀ links : List ImageBlob, (links.any fun b => b.key = sanitizeDockerKey env.text repository imageName &&
      b.blobDigest = dockerDigest env.text digest) = ((links.filter fun b => b.key ≠ x).any fun b =>
        b.key = sanitizeDockerKey env.text repository imageName && b.blobDigest = dockerDigest env.text digest) := by
    intro links
    rw [List.any_filter]
    congr 1
    funext b
    by_cases hb : b.key = x
    · simp [hb, hy.symm]
    · simp [hb]
  unfold dockerImageReferencesBlob
  dsimp only
  rw [hfilter, hrows.links, ← hfilter]

theorem tags_own (hrows : SameRows x w₀.db w.db) {p p' : DockerTag → Bool} (hp : ∀ t, p t = p' t)
    (hown : ∀ t, p' t = true → (t.repository, t.imageName) ≠ x) :
      w.db.tags.rows.filter p = w₀.db.tags.rows.filter p' := by
  have hpull : ∀ rows : List DockerTag, ((rows.filter fun t => (t.repository, t.imageName) ≠ x).filter p') =
      rows.filter p' :=
    fun rows => filter_filter_own fun t ht => decide_eq_true (hown t ht)
  rw [funext hp, ← hpull, hrows.tags, hpull]

theorem listDockerTags_own (hrows : SameRows x w₀.db w.db) (hy : sanitizeDockerKey env.text repository imageName ≠ x)
    (last : String) (limit : Int) (username : String) (moderator : Bool) :
    listDockerTagsForViewer env.text w.db repository imageName last limit username moderator =
      listDockerTagsForViewer env.text w₀.db repository imageName last limit username moderator := by
  unfold listDockerTagsForViewer
  dsimp only
  congr 2
  refine tags_own hrows (fun t => ?_) fun t ht => ?_
  · rw [tagVisible_accounts env.text hrows.accounts]
  · simp only [Bool.and_eq_true, decide_eq_true_eq] at ht
    exact fun h => hy (h ▸ Prod.ext ht.1.1.1.symm ht.1.1.2.symm)

/-- A program that only asks, and is answered the same in both states. -/
def Alike {α : Type} (w w' : World) (p : Handler α) (Q : α → Prop) : Prop :=
  ∀ fault, ∃ r, Proc.exec fault p w = (r, w) ∧ Proc.exec fault p w' = (r, w') ∧ ∀ a, r = .ok a → Q a

section Alike
variable {α β : Type} {w' : World} {p : Handler α} {k : α → Handler β} {Q : α → Prop} {R : β → Prop}

theorem Alike.ofExcept {r : Except DockerError α} (h : ∀ a, r = .ok a → Q a) : Alike w w' (Proc.ofExcept r) Q :=
  fun _ => ⟨r, rfl, rfl, h⟩

theorem Alike.pure {a : α} (h : Q a) : Alike w w' (.done (.ok a)) Q := .ofExcept fun _ ha => Except.ok.inj ha ▸ h

theorem Alike.throw (e : DockerError) : Alike w w' (Proc.throw e) Q := .ofExcept fun _ ha => nomatch ha

theorem Alike.query {f : World → Except DockerError α} (h : f w = f w') (hQ : ∀ a, f w' = .ok a → Q a) :
    Alike w w' (query f) Q := by
  intro fault
  have hask : ∀ t, Proc.exec fault (Docker.query f) t = (if fault .query then .error .unavailable else f t, t) :=
    fun t => Proc.exec_ask _ _ f
  refine ⟨if fault .query then .error .unavailable else f w', by rw [hask, h], hask w', fun a ha => ?_⟩
  split at ha
  · cases ha
  · exact hQ a ha

theorem Alike.bind (hp : Alike w w' p Q) (hk : ∀ a, Q a → Alike w w' (k a) R) : Alike w w' (p.bind k) R := by
  intro fault
  obtain ⟨r, h, h', hr⟩ := hp fault
  cases r with
  | error e =>
    refine ⟨.error e, ?_, ?_, fun _ hb => nomatch hb⟩
    · rw [Proc.exec_bind, h]
    · rw [Proc.exec_bind, h']
  | ok a =>
    obtain ⟨r', hk, hk', hr'⟩ := hk a (hr a rfl) fault
    refine ⟨r', ?_, ?_, hr'⟩
    · rw [Proc.exec_bind, h]
      exact hk
    · rw [Proc.exec_bind, h']
      exact hk'

theorem Alike.require_bind {c : Prop} [Decidable c] {e : DockerError} {k : Unit → Handler β}
    (h : c → Alike w w' (k ()) R) :
    Alike w w' ((Proc.ofExcept (require c e)).bind k) R :=
  Alike.bind (Q := fun _ => c) (.ofExcept fun _ ha => require_ok.1 ha) fun _ hc => h hc

end Alike

/-! #### The calls that pull -/

attribute [local irreducible] canReadDocker parseRepositoryAndImage trimSlash

theorem authenticate_own (hrows : SameRows x w₀.db w.db) (cred : Credentials) (repo : Repository) (name : String) :
    authenticateAndAuthorize env cred repo name .pull w = authenticateAndAuthorize env cred repo name .pull w₀ := by
  have hallowed : ∀ user, allowed env w user repo name .pull = allowed env w₀ user repo name .pull := by
    intro user
    show canReadDocker env.text w.db user repo name = canReadDocker env.text w₀.db user repo name
    exact canReadDocker_accounts hrows.accounts user repo name
  unfold authenticateAndAuthorize
  simp only [hallowed]

theorem authorized_alike (hrows : SameRows x w₀.db w.db) (cred : Credentials) (name : String) :
    Alike w w₀ (authorized env cred name .pull) fun a => a.1.name = (parseRepositoryAndImage name).1 ∧
      (env.repos a.1.name).isSome = true := by
  refine Alike.bind (Q := fun repo => repo.name = (parseRepositoryAndImage name).1 ∧ (env.repos repo.name).isSome = true)
    (.ofExcept fun repo h => ?_) fun repo hrepo => ?_
  · obtain ⟨config, hconfig, rfl⟩ := Option.map_eq_some_iff.1 (orError_ok.1 h)
    refine ⟨rfl, ?_⟩
    show (env.repos (parseRepositoryAndImage name).1).isSome = true
    rw [hconfig]
    rfl
  · exact Alike.bind (Q := fun _ => True) (.query (authenticate_own hrows cred repo name) fun _ _ => trivial) fun _ _ =>
      .pure hrepo

theorem handleTagsList_alike (hw : Untouched env x w₀ w) (cred : Credentials) {name : String}
    (hy : imageOf env.text name ≠ x) (last : String)
    (n : Int) : Alike w w₀ (handleTagsList env cred name last n) fun _ => True := by
  refine (authorized_alike hw.rows cred name).bind fun ⟨repo, user⟩ _ => ?_
  refine Alike.bind (Q := fun _ => True) (.query ?_ fun _ _ => trivial) fun _ _ => .pure trivial
  exact congrArg Except.ok (listDockerTags_own hw.rows hy last n _ _)

theorem manifestLocks_own (hrows : SameRows x w₀.db w.db) (user : User) (repository image digest : String) :
    manifestLocks env user repository image digest w = manifestLocks env user repository image digest w₀ := by
  unfold manifestLocks
  rw [dockerLocks_accounts hrows.accounts, getDockerImageAccess_accounts hrows.accounts]

theorem openManifest_own (hw : Untouched env x w₀ w) {digest : String} (hr : (env.repos repository).isSome = true)
    (hname : plainName imageName = true) (hd : plainDigest env digest = true)
    (hy : sanitizeDockerKey env.text repository imageName ≠ x) :
    openManifest env repository imageName digest w = openManifest env repository imageName digest w₀ := by
  unfold openManifest
  rw [hw.manifestFiles repository imageName digest hr hname hd hy]

theorem serveManifest_alike (hw : Untouched env x w₀ w) {repo : Repository} (user : User) {digest : String}
    (mediaType : String) (access : Access) (hr : (env.repos repo.name).isSome = true) (hname : plainName imageName = true)
    (hd : plainDigest env digest = true) (hy : sanitizeDockerKey env.text repo.name imageName ≠ x) :
    Alike w w₀ (serveManifest env repo user imageName digest mediaType access .missing) fun _ => True := by
  have hopen := openManifest_own hw hr hname hd hy
  refine Alike.bind (Q := fun _ => True) (.query (manifestLocks_own hw.rows user _ _ _) fun _ _ => trivial) fun locked _ => ?_
  refine Alike.bind (Q := fun _ => True) (.query (congrArg Except.ok (getDockerManifest_own hw.rows hy digest)) fun _ _ =>
    trivial)
    fun m _ => ?_
  cases m with
  | some m =>
    dsimp only
    split
    · exact .pure trivial
    · exact Alike.bind (Q := fun _ => True) (.query hopen fun _ _ => trivial) fun _ _ => .pure trivial
  | none =>
    refine Alike.require_bind fun _ => Alike.bind (Q := fun _ => True) (.query hopen fun _ _ => trivial) fun raw _ => ?_
    cases raw with
    | some raw => exact .pure trivial
    | none => exact Alike.require_bind fun _ => .throw _

theorem handleGetManifest_alike (hw : Untouched env x w₀ w)
    (htags : ∀ t ∈ w₀.db.tags.rows, plainDigest env t.digest = true)
    (cred : Credentials) {name reference : String} (hy : imageOf env.text name ≠ x)
    (hname : plainName (parseRepositoryAndImage name).2 = true)
    (hd : Storage.hasPrefix reference "sha256:" = true → plainDigest env reference = true) :
    Alike w w₀ (handleGetManifest env cred name reference .missing) fun _ => True := by
  refine Alike.require_bind fun _ => (authorized_alike hw.rows cred name).bind fun ⟨repo, user⟩ ⟨hrepo, hr⟩ => ?_
  dsimp only at hrepo hr
  have hkey : sanitizeDockerKey env.text repo.name (parseRepositoryAndImage name).2 ≠ x := by
    rw [hrepo]
    exact hy
  refine Alike.bind (Q := fun _ => True)
    (.query (congrArg Except.ok (getDockerImageAccess_accounts hw.rows.accounts _ _ _)) fun _ _ => trivial) fun access _ => ?_
  split
  · rename_i hprefix
    exact serveManifest_alike hw user "" access hr hname (hd hprefix) hkey
  · refine Alike.bind (Q := fun r => ∀ t, r = some t → t ∈ w₀.db.tags.rows)
      (.query (congrArg Except.ok (getDockerTag_own hw.rows hkey reference)) fun r hr t ht => ?_) fun r hmem => ?_
    · subst ht
      exact (Table.find?_eq_some.1 (Except.ok.inj hr)).1
    · cases r with
      | some tag => exact serveManifest_alike hw user tag.mediaType access hr hname (htags tag (hmem tag rfl)) hkey
      | none =>
        refine Alike.require_bind fun _ => Alike.bind (Q := fun _ => True) (.query ?_ fun _ _ => trivial) fun _ _ => .throw _
        exact ensureResourceMutable_accounts hw.rows.accounts _ _ _ _

theorem handleGetBlob_alike (hw : Untouched env x w₀ w) (cred : Credentials) {name digest : String}
    (hy : imageOf env.text name ≠ x) (hd : canonicalDigest env digest = true) :
    Alike w w₀ (handleGetBlob env cred name digest none) fun _ => True := by
  obtain ⟨hplain, hcanonical⟩ := Bool.and_eq_true_iff.1 hd
  refine (authorized_alike hw.rows cred name).bind fun ⟨repo, user⟩ ⟨hrepo, hr⟩ => ?_
  dsimp only at hrepo hr
  have hkey : sanitizeDockerKey env.text repo.name (parseRepositoryAndImage name).2 ≠ x := by
    rw [hrepo]
    exact hy
  refine Alike.bind (Q := fun _ => True) (.query (dockerLocks_accounts hw.rows.accounts _ _ _) fun _ _ => trivial)
    fun locks _ => ?_
  refine Alike.require_bind fun _ => Alike.bind (Q := fun _ => True)
    (.query (congrArg Except.ok (getDockerImageAccess_accounts hw.rows.accounts _ _ _)) fun _ _ => trivial) fun access _ => ?_
  have hmissing : Alike w w₀ (do
      Proc.ofExcept (require (locks = []) .blobUnknown)
      let content ← Proc.ofExcept (orError none .blobUnknown)
      cacheBlob env repo digest content
      pure Served.upstream) fun _ => True :=
    Alike.require_bind fun _ => Alike.bind (Q := fun _ => False) (.ofExcept fun _ h => nomatch h) fun _ h => h.elim
  dsimp only
  split
  · -- the file is asked for only if this image links the blob
    refine Alike.bind (Q := fun linked => linked = true → Shared env x w₀ repo.name digest)
      (.query (congrArg Except.ok (referencesBlob_own hw.rows hkey digest)) fun linked hlinked h => ?_) fun linked hlinked =>
        ?_
    · subst h
      have hany := Except.ok.inj hlinked
      unfold dockerImageReferencesBlob at hany
      obtain ⟨b, hb, hmine⟩ := List.any_eq_true.1 hany
      rw [Bool.and_eq_true, decide_eq_true_eq, decide_eq_true_eq] at hmine
      obtain ⟨hbkey, hbdigest⟩ := hmine
      refine ⟨b, hb, fun h => hkey (hbkey ▸ h), congrArg (·.1) hbkey, ?_⟩
      rw [hbdigest, of_decide_eq_true hcanonical]
    · refine Alike.require_bind fun h => ?_
      have hfile := hw.blobFiles repo.name digest hr hplain (hlinked h)
      refine Alike.bind (Q := fun allowLocalBlob => allowLocalBlob = true) (.pure rfl) fun allowLocalBlob h => ?_
      subst h
      refine Alike.bind (Q := fun _ => True) (.query (congrArg Except.ok hfile) fun _ _ => trivial) fun content _ => ?_
      cases content with
      | some content => exact .pure trivial
      | none => exact hmissing
  · exact Alike.bind (Q := fun allowLocalBlob => allowLocalBlob = false) (.pure rfl) fun allowLocalBlob h => h ▸ hmissing

theorem pulls_alike (hw : Untouched env x w₀ w) (htags : ∀ t ∈ w₀.db.tags.rows, plainDigest env t.digest = true)
    {req : Request} (hreq : req.pulls env y) (hy : y ≠ x) (fault : Step → Bool) :
      answer env fault req w = answer env fault req w₀ := by
  have hanswer : ∀ {p : Handler Served}, Alike w w₀ p (fun _ => True) →
      (Proc.exec fault p w).1 = (Proc.exec fault p w₀).1 := by
    intro p hp
    obtain ⟨r, h, h', -⟩ := hp fault
    rw [h, h']
  cases req with
  | tagsList cred name last n =>
    obtain rfl : imageOf env.text name = y := hreq
    exact hanswer (handleTagsList_alike hw cred hy last n)
  | getManifest cred name reference upstream =>
    obtain ⟨rfl, hname, hd, rfl⟩ := hreq
    exact hanswer (handleGetManifest_alike hw htags cred hy hname hd)
  | getBlob cred name digest upstream =>
    obtain ⟨rfl, hd, rfl⟩ := hreq
    exact hanswer (handleGetBlob_alike hw cred hy hd)
  | _ => exact hreq.elim

end Pull

/-! ### Runs -/

/-- A request for the image `x` alone. -/
def Request.On (env : Env) (x : Key) (req : Request) : Prop := ∃ name, req.changes = some name ∧ imageOf env.text name = x

/-- The state of the server and the requests under way, after any number of steps of requests that are `started`. -/
def Reached (env : Env) (started : Request → Prop) (w₀ : World) : System Request World Step DockerError Served → Prop :=
  Reach (fun _ => false) (handle env) (System.Orderly started (fun _ _ => True) fun _ _ => True) ⟨w₀, []⟩

/-- However the requests for one image interleave, what is pulled from another one is as before. -/
theorem images_isolated {env : Env} (henv : env.Named) (hhash : env.Hashes) {x y : Key} (hxy : y ≠ x) {w₀ : World}
    (htags : ∀ t ∈ w₀.db.tags.rows, plainDigest env t.digest = true)
    {sys : System Request World Step DockerError Served}
    (h : Reached env (fun req => req.On env x ∧ Harmless env x w₀ req) w₀ sys) {req : Request} (hreq : req.pulls env y)
    (fault : Step → Bool) : answer env fault req sys.shared = answer env fault req w₀ := by
  have hkeeps := Reach.relies (fun _ _ _ => True) (Untouched env x w₀) (fun _ _ => True)
    (fun req : Request => req.On env x ∧ Harmless env x w₀ req) (fun _ _ => True) (fun _ _ _ => trivial)
    (fun _ _ _ _ _ _ => trivial) (fun _ _ => trivial) (fun req w hstarted _ => ?_) (.refl env x w₀) h
  · exact pulls_alike hkeeps.1 htags hreq hxy fault
  · obtain ⟨⟨name, hname, hx⟩, hharm⟩ := hstarted
    have hspares := handle_spares henv hhash hname hx hharm w
    exact (hspares.mono fun _ _ _ => trivial).guar_mono fun _ _ _ _ _ _ => trivial

/-! #### A layer that two images have -/

theorem nodup_layer : ([⟨"app", "sha256:aa", 5⟩].map DockerBlob.key).Nodup := by simp

/-- The layer is stored, and `app/open` links it. -/
def openLayer : World :=
  ⟨{ twoImages with imageBlobs := [⟨"app", "open", "sha256:bb", "sha256:aa"⟩], blobs :=
    ⟨[⟨"app", "sha256:aa", 5⟩], nodup_layer⟩ }, [("/srv/app/blobs/sha256/aa", "layer")], [], [], []⟩

def pullOpen : Request := .getBlob eve "app/open" "sha256:aa" none

theorem layerEnv_named : layerEnv.Named := by
  have happ : ∀ r, (layerEnv.repos r).isSome = true → r = "app" := by
    intro r hr
    by_contra hne
    simp [layerEnv, appEnv, hne] at hr
  refine ⟨fun r hr => ?_, fun r r' hr hr' _ => ?_⟩
  · rw [happ r hr]
    decide
  · rw [happ r hr, happ r' hr']

theorem layerEnv_hashes : layerEnv.Hashes := by
  have haa : plainDigest layerEnv "sha256:aa" = true := by decide
  have hbb : plainDigest layerEnv "sha256:bb" = true := by decide
  refine ⟨fun content => ?_, fun raw mediaType m h => ?_⟩
  · show plainDigest layerEnv (if content = "layer" then "sha256:aa" else "sha256:bb") = true
    split
    · exact haa
    · exact hbb
  · change (if raw = "manifest" then some (⟨"sha256:bb", mediaType, "", 1, ["sha256:aa"], false⟩ : ParsedManifest)
      else none) = some m at h
    split at h
    · rename_i hraw
      cases h
      rw [hraw]
      rfl
    · cases h

/-- Bob uploads the layer to `app/secret` too, and `app/open` is pulled as before. -/
theorem images_isolated_upload :
    ∃ sys, Reached layerEnv (fun req => req.On layerEnv ("app", "secret") ∧ Harmless layerEnv ("app", "secret") openLayer
      req) openLayer sys ∧ sys.shared.db.imageBlobs.length = 2 ∧ answer layerEnv (fun _ => false) pullOpen sys.shared =
        .ok (.localBlob "layer") := by
  have hrun : ((System.run (fun _ => false) (handle layerEnv) ⟨openLayer, []⟩ uploadSecret).map fun sys =>
    sys.shared.db.imageBlobs.length) =
      some 2 := by decide +kernel
  obtain ⟨sys, hsys, hlinks⟩ := Option.map_eq_some_iff.1 hrun
  have hreach : Reached layerEnv
      (fun req => req.On layerEnv ("app", "secret") ∧ Harmless layerEnv ("app", "secret") openLayer req) openLayer sys :=
    Reach.of_run hsys _ fun req hreq => by
      simp only [uploadSecret, alone, List.mem_cons, List.mem_replicate, reduceCtorEq, and_false, or_false,
        Event.start.injEq] at hreq
      subst hreq
      refine ⟨⟨"app/secret", rfl, by decide⟩, by decide, fun content hcontent _ => ?_⟩
      have hlayer : content = "layer" := by
        by_contra hne
        change (if content = "layer" then "sha256:aa" else "sha256:bb") = "sha256:aa" at hcontent
        rw [if_neg hne] at hcontent
        exact absurd hcontent (by decide)
      rw [hlayer]
      decide
  have hpull : pullOpen.pulls layerEnv ("app", "open") := ⟨by decide, by decide, rfl⟩
  have hsame := images_isolated layerEnv_named layerEnv_hashes (by decide) (by decide) hreach hpull fun _ => false
  exact ⟨sys, hreach, hlinks, hsame.trans (by decide +kernel)⟩

/-- Bob deletes the layer in `app/secret`, which does not even have it, and it cannot be pulled from `app/open`. -/
theorem image_disturbed :
    ¬∀ (env : Env) (x y : Key) (w₀ : World) sys, env.Named → env.Hashes → y ≠ x →
      Reached env (fun req => req.On env x) w₀ sys →
      ∀ req : Request, req.pulls env y → answer env (fun _ => false) req sys.shared = answer env (fun _ => false) req
        w₀ := by
  intro hall
  have hrun : ((System.run (fun _ => false) (handle layerEnv) ⟨openLayer, []⟩
      (alone (.deleteBlob bob "/v2/app/secret/blobs/sha256:aa" "app/secret" "sha256:aa") 5)).map fun sys =>
        answer layerEnv (fun _ => false) pullOpen sys.shared) = some (.error .blobUnknown) := by decide
  obtain ⟨sys, hsys, hanswer⟩ := Option.map_eq_some_iff.1 hrun
  have hreach : Reached layerEnv (fun req => req.On layerEnv ("app", "secret")) openLayer sys :=
    Reach.of_run hsys _ fun req hreq => by
    simp only [alone, List.mem_cons, List.mem_replicate, reduceCtorEq, and_false, or_false, Event.start.injEq] at hreq
    subst hreq
    exact ⟨"app/secret", rfl, by decide⟩
  have hsame := hall layerEnv ("app", "secret") ("app", "open") openLayer sys layerEnv_named layerEnv_hashes (by decide)
    hreach pullOpen ⟨by decide, by decide, rfl⟩
  rw [hanswer] at hsame
  exact absurd hsame (by decide)

end Renop.Docker
