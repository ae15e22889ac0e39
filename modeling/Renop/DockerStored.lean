import Renop.DockerLinks

/-!
# The files behind the rows of the blobs

A row of `docker_blobs` says that a repository has a blob, and the file is in the store of that repository. An upload moves
the file first, makes the row then and links it to the image at last, a deletion goes the other way, and a mount makes only
the row and the link: it has looked for the file in the store of its source.
-/

namespace Renop.Docker

open Sql Interleave
open Renop.Locks (asciiText readLocked)
open Renop.SuperTeam (Text)
open Renop.Cargo (Key)

/-! ### The invariant -/

/-- A digest as the registry writes it. -/
def sha256Digest (env : Env) (digest : String) : Bool := canonicalDigest env digest && digest = "sha256:" ++ cleanDigestHash
    env digest

structure Env.Sha256 (env : Env) : Prop extends Env.Hashes env where
  canonical : ∀ content, sha256Digest env (env.calculateDigest content) = true

/-- There is a row of the blob. -/
def Recorded (env : Env) (w : World) (r digest : String) : Prop :=
  ∃ b ∈ w.db.blobs.rows, b.repository = (sanitizeDockerKey env.text r "").1 ∧ b.digest = digest

/-- The contents of a run. -/
def Within (occurs : String → Prop) (w : World) : Prop := ∀ path content, w.file path = some content → occurs content

/-- A review of a repository that there is, with a manifest that lists what its digest says. -/
def TaskListed (env : Env) (lists : String → String → Prop) (t : ReviewTask) : Prop :=
  (env.repos t.repository).isSome = true ∧ Agrees env lists t.payload.parsed

structure BlobsStored (env : Env) (lists : String → String → Prop) (w : World) : Prop where
  addressed : ∀ r digest content, (env.repos r).isSome = true → sha256Digest env digest = true →
    w.file (blobPath env r digest) = some content → env.calculateDigest content = digest
  stored : ∀ b ∈ w.db.blobs.rows, ∀ r, (env.repos r).isSome = true →
    b.repository = (sanitizeDockerKey env.text r "").1 →
    sha256Digest env b.digest = true ∧ ∃ content, w.file (blobPath env r b.digest) = some content ∧
      (content.utf8ByteSize : Int) = b.size
  listed : Listed lists w.db
  tasks : ∀ t ∈ w.tasks, TaskListed env lists t

/-! ### What requests expect of each other -/

/-- The blobs that a request may record. -/
def Request.Stores (req : Request) (r digest : String) : Prop :=
  match req with
  | .postUpload _ name q => (parseRepositoryAndImage name).1 = r ∧ (digest = q.digest ∨ digest = q.mount)
  | .putUpload _ name _ d _ | .getBlob _ name d _ => (parseRepositoryAndImage name).1 = r ∧ digest = d
  | _ => False

/-- The blobs whose rows and files it may remove. -/
def Request.Removes (env : Env) (req : Request) (r digest : String) : Prop :=
  match req with
  | .deleteBlob _ _ name d => (parseRepositoryAndImage name).1 = r ∧ digest = d
  | .deleteRepository repository => (sanitizeDockerKey env.text repository "").1 = (sanitizeDockerKey env.text r "").1
  | _ => False

/-- The links that a request may make. -/
def Request.Attaches (env : Env) (req : Request) (key : Key) (digest : String) : Prop :=
  match req with
  | .postUpload _ name q => key = imageOf env.text name ∧ (digest = q.digest ∨ digest = q.mount)
  | .putUpload _ name _ d _ => key = imageOf env.text name ∧ digest = d
  | _ => False

/-- The links that it may remove, by themselves or with the image. -/
def Request.Unlinks (env : Env) (lists : String → String → Prop) (req : Request) (key : Key) (digest : String) : Prop :=
  match req with
  | .deleteBlob _ _ name d => key.1 = (imageOf env.text name).1 ∧ digest = dockerDigest env.text d
  | .deleteManifest _ _ name reference => Storage.hasPrefix reference "sha256:" = true ∧ key = imageOf env.text name ∧
      Belongs lists (dockerDigest env.text reference) digest
  | .deleteImage repository imageName => key = sanitizeDockerKey env.text repository imageName
  | .deleteRepository repository => key.1 = (sanitizeDockerKey env.text repository "").1
  | .administer f => ∃ accounts : Accounts, (accounts.images.find? key).isSome = true ∧
      (f accounts).images.find? key = none
  | _ => False

/-- No one removes what the other one records. -/
structure Apart (env : Env) (lists : String → String → Prop) (req req' : Request) : Prop where
  blobs : ∀ r digest, (req.Stores r digest → ¬req'.Removes env r digest) ∧
    (req'.Stores r digest → ¬req.Removes env r digest)
  links : ∀ key digest, (req.Attaches env key digest → ¬req'.Unlinks env lists key digest) ∧
    (req'.Attaches env key digest → ¬req.Unlinks env lists key digest)

/-- The files and the rows of these blobs stay. -/
def Kept (env : Env) (P : String → String → Prop) (w w' : World) : Prop :=
  ∀ r digest, (env.repos r).isSome = true → sha256Digest env digest = true → P r digest →
    ((w.file (blobPath env r digest)).isSome = true → (w'.file (blobPath env r digest)).isSome = true) ∧
      (Recorded env w r digest → Recorded env w' r digest)

/-- No rows of these blobs come. -/
def Unrecorded (env : Env) (P : String → String → Prop) (w w' : World) : Prop :=
  ∀ r digest, (env.repos r).isSome = true → sha256Digest env digest = true → P r digest →
    ¬Recorded env w r digest → ¬Recorded env w' r digest

/-- What a request relies on: the blobs that it records stay, and those that it removes do not come back. -/
structure Awaits (env : Env) (req : Request) (w w' : World) : Prop where
  kept : Kept env req.Stores w w'
  unrecorded : Unrecorded env (req.Removes env) w w'
  links : ∀ key digest, req.Attaches env key digest → LinkKept key digest w.db w'.db

/-- What it leaves to the others. -/
structure Leaves (env : Env) (lists : String → String → Prop) (req : Request) (w w' : World) : Prop where
  kept : Kept env (fun r digest => ¬req.Removes env r digest) w w'
  unrecorded : Unrecorded env (fun r digest => ¬req.Stores r digest) w w'
  links : ∀ key digest, ¬req.Unlinks env lists key digest → LinkKept key digest w.db w'.db

section Awaits
variable {env : Env} {lists : String → String → Prop} {req req' : Request} {w w' w'' : World}

theorem Apart.symm (h : Apart env lists req req') : Apart env lists req' req :=
  ⟨fun r digest => (h.blobs r digest).symm, fun key digest => (h.links key digest).symm⟩

theorem Awaits.refl (req : Request) (w : World) : Awaits env req w w :=
  ⟨fun _ _ _ _ _ => ⟨id, id⟩, fun _ _ _ _ _ => id, fun key digest _ => .refl key digest w.db⟩

theorem Kept.trans {P : String → String → Prop} (h : Kept env P w w') (h' : Kept env P w' w'') : Kept env P w w'' := by
  intro r digest hr hd hP
  obtain ⟨hfile, hrow⟩ := h r digest hr hd hP
  obtain ⟨hfile', hrow'⟩ := h' r digest hr hd hP
  exact ⟨hfile' ∘ hfile, hrow' ∘ hrow⟩

theorem Unrecorded.trans {P : String → String → Prop} (h : Unrecorded env P w w') (h' : Unrecorded env P w' w'') :
    Unrecorded env P w w'' :=
  fun r digest hr hd hP hnot => h' r digest hr hd hP (h r digest hr hd hP hnot)

theorem Awaits.trans (h : Awaits env req w w') (h' : Awaits env req w' w'') : Awaits env req w w'' :=
  ⟨h.kept.trans h'.kept, h.unrecorded.trans h'.unrecorded,
    fun key digest hattaches => (h.links key digest hattaches).trans (h'.links key digest hattaches)⟩

theorem Leaves.refl (req : Request) (w : World) : Leaves env lists req w w :=
  ⟨fun _ _ _ _ _ => ⟨id, id⟩, fun _ _ _ _ _ => id, fun key digest _ => .refl key digest w.db⟩

theorem Leaves.trans (h : Leaves env lists req w w') (h' : Leaves env lists req w' w'') : Leaves env lists req w w'' :=
  ⟨h.kept.trans h'.kept, h.unrecorded.trans h'.unrecorded,
    fun key digest hnot => (h.links key digest hnot).trans (h'.links key digest hnot)⟩

end Awaits

/-! ### Steps -/

section Steps
variable {env : Env} {lists : String → String → Prop} {req : Request} {w w' : World} {r digest content : String}

theorem sha256Digest_plain (h : sha256Digest env digest = true) : plainDigest env digest = true :=
  (Bool.and_eq_true_iff.1 (Bool.and_eq_true_iff.1 h).1).1

theorem sha256Digest_key (h : sha256Digest env digest = true) : dockerDigest env.text digest = digest :=
  of_decide_eq_true (Bool.and_eq_true_iff.1 (Bool.and_eq_true_iff.1 h).1).2

theorem blobPath_digest (henv : env.Named) {r' digest' : String} (hr : (env.repos r).isSome = true)
    (hr' : (env.repos r').isSome = true) (hd : sha256Digest env digest = true) (hd' : sha256Digest env digest' = true)
    (h : blobPath env r digest = blobPath env r' digest') :
    r = r' ∧ digest = digest' := by
  obtain ⟨hrepo, hhash⟩ := blobPath_injective (henv.plain r hr) (henv.plain r' hr') (sha256Digest_plain hd)
    (sha256Digest_plain hd') h
  refine ⟨hrepo, ?_⟩
  have heq := of_decide_eq_true (Bool.and_eq_true_iff.1 hd).2
  have heq' := of_decide_eq_true (Bool.and_eq_true_iff.1 hd').2
  rw [heq, heq', hhash]

/-- The links and the images that a request does not remove stay. -/
def LinksKept (env : Env) (lists : String → String → Prop) (req : Request) (db db' : DockerDB) : Prop :=
  Listed lists db → Listed lists db' ∧ ∀ key digest, ¬req.Unlinks env lists key digest → LinkKept key digest db db'

theorem LinksKept.same {db db' : DockerDB} (hlinks : db'.imageBlobs = db.imageBlobs) (himages : db'.images = db.images) :
    LinksKept env lists req db db' :=
  fun hlisted => ⟨hlisted.of_subset fun _ hb => hlinks ▸ hb, fun _ _ _ => .of_eq hlinks himages⟩

theorem LinksKept.trans {db db' db'' : DockerDB} (h : LinksKept env lists req db db')
    (h' : LinksKept env lists req db' db'') :
    LinksKept env lists req db db'' := by
  intro hlisted
  obtain ⟨hlisted', hkept⟩ := h hlisted
  obtain ⟨hlisted'', hkept'⟩ := h' hlisted'
  exact ⟨hlisted'', fun key digest hnot => (hkept key digest hnot).trans (hkept' key digest hnot)⟩

/-- Nothing that the invariant is about changes. -/
structure SameBlobs (env : Env) (lists : String → String → Prop) (req : Request) (w w' : World) : Prop where
  rows : w'.db.blobs = w.db.blobs
  files : ∀ r digest, (env.repos r).isSome = true → plainDigest env digest = true →
    w'.file (blobPath env r digest) = w.file (blobPath env r digest)
  links : LinksKept env lists req w.db w'.db
  tasks : (∀ t ∈ w.tasks, TaskListed env lists t) → ∀ t ∈ w'.tasks, TaskListed env lists t

theorem SameBlobs.stored (h : SameBlobs env lists req w w') (hw : BlobsStored env lists w) : BlobsStored env lists w' := by
  refine ⟨fun r digest content hr hd hfile => ?_, fun b hb r hr hrepo => ?_, (h.links hw.listed).1, h.tasks hw.tasks⟩
  · rw [h.files r digest hr (sha256Digest_plain hd)] at hfile
    exact hw.addressed r digest content hr hd hfile
  · rw [h.rows] at hb
    obtain ⟨hd, hfile⟩ := hw.stored b hb r hr hrepo
    refine ⟨hd, ?_⟩
    rw [h.files r b.digest hr (sha256Digest_plain hd)]
    exact hfile

theorem SameBlobs.recorded (h : SameBlobs env lists req w w') (r digest : String) :
    Recorded env w' r digest ↔ Recorded env w r digest := by
  unfold Recorded
  rw [h.rows]

theorem SameBlobs.kept (h : SameBlobs env lists req w w') (P : String → String → Prop) : Kept env P w w' := by
  refine fun r digest hr hd _ => ⟨fun hfile => ?_, (h.recorded r digest).2⟩
  rw [h.files r digest hr (sha256Digest_plain hd)]
  exact hfile

theorem SameBlobs.leaves (h : SameBlobs env lists req w w') (hw : BlobsStored env lists w) : Leaves env lists req w w' :=
  ⟨h.kept _, fun r digest _ _ _ hnot h' => hnot ((h.recorded r digest).1 h'), (h.links hw.listed).2⟩

/-- A file that is no blob's. -/
def Offside (env : Env) (path : String) : Prop :=
  ∀ r digest, (env.repos r).isSome = true → plainDigest env digest = true → blobPath env r digest ≠ path

theorem SameBlobs.db {w : World} {db : DockerDB} (h : db.blobs = w.db.blobs) (hlinks : LinksKept env lists req w.db db) :
    SameBlobs env lists req w { w with db } :=
  ⟨h, fun _ _ _ _ => rfl, hlinks, id⟩

theorem SameBlobs.writeFile {path : String} (h : Offside env path) (w : World) (content : String) :
    SameBlobs env lists req w (w.writeFile path content) := by
  refine ⟨rfl, fun r digest hr hd => ?_, .same rfl rfl, id⟩
  rw [w.file_writeFile, if_neg (h r digest hr hd)]

theorem SameBlobs.removeFile {path : String} (h : Offside env path) (w : World) :
    SameBlobs env lists req w (w.removeFile path) := by
  refine ⟨rfl, fun r digest hr hd => ?_, .same rfl rfl, id⟩
  rw [w.file_removeFile, if_neg (h r digest hr hd)]

theorem SameBlobs.mkdirAll (w : World) (dir : String) :
    SameBlobs env lists req w (w.mkdirAll dir) := ⟨rfl, fun _ _ _ _ => rfl, .same rfl rfl, id⟩

theorem SameBlobs.refl (w : World) : SameBlobs env lists req w w := ⟨rfl, fun _ _ _ _ => rfl, .same rfl rfl, id⟩

theorem SameBlobs.trans {w'' : World} (h : SameBlobs env lists req w w') (h' : SameBlobs env lists req w' w'') :
    SameBlobs env lists req w w'' :=
  ⟨h'.rows.trans h.rows, fun r digest hr hd => (h'.files r digest hr hd).trans (h.files r digest hr hd),
    h.links.trans h'.links, h'.tasks ∘ h.tasks⟩

/-- No two contents of a run have the same digest. -/
def Distinct (env : Env) (occurs : String → Prop) : Prop :=
  ∀ content content', occurs content → occurs content' → env.calculateDigest content = env.calculateDigest content' →
    content = content'

variable {occurs : String → Prop}

theorem BlobsStored.commit (henv : env.Named) (hsha : env.Sha256) (hfree : Distinct env occurs)
    (hr : (env.repos r).isSome = true)
    (hd : env.calculateDigest content = digest) (hw : BlobsStored env lists w) (hin : Within occurs w)
    (hin' : Within occurs (w.writeFile (blobPath env r digest) content)) :
      BlobsStored env lists (w.writeFile (blobPath env r digest) content) := by
  have hsha' : sha256Digest env digest = true := hd ▸ hsha.canonical content
  have hoccurs : occurs content := hin' (blobPath env r digest) content (by rw [w.file_writeFile, if_pos rfl])
  refine ⟨fun r' digest' content' hr' hd' hfile => ?_, fun b hb r' hr' hrepo => ?_, hw.listed, hw.tasks⟩
  · rw [w.file_writeFile] at hfile
    split at hfile
    · rename_i hpath
      obtain ⟨-, rfl⟩ := blobPath_digest henv hr' hr hd' hsha' hpath
      rw [← Option.some.inj hfile]
      exact hd
    · exact hw.addressed r' digest' content' hr' hd' hfile
  · obtain ⟨hb', old, hold, hsize⟩ := hw.stored b hb r' hr' hrepo
    refine ⟨hb', ?_⟩
    rw [w.file_writeFile]
    split
    · rename_i hpath
      obtain ⟨-, hdigest⟩ := blobPath_digest henv hr' hr hb' hsha' hpath
      have hsame : old = content := hfree old content (hin _ old hold) hoccurs
        (by rw [hw.addressed r' b.digest old hr' hb' hold, hd, hdigest])
      exact ⟨content, rfl, hsame ▸ hsize⟩
    · exact ⟨old, hold, hsize⟩

theorem Leaves.commit (w : World) (path content : String) : Leaves env lists req w (w.writeFile path content) := by
  refine ⟨fun r digest _ _ _ => ⟨fun hfile => ?_, id⟩, fun _ _ _ _ _ => id, fun key digest _ => .refl key digest w.db⟩
  rw [w.file_writeFile]
  split
  · rfl
  · exact hfile

theorem recordDockerBlob_links {text : Text} {db db' : DockerDB} {size : Int}
    (h : recordDockerBlob text db r digest size = .ok db') :
    db'.imageBlobs = db.imageBlobs ∧ db'.images = db.images := by
  unfold recordDockerBlob at h
  dsimp only at h
  split at h
  · cases h
    exact ⟨rfl, rfl⟩
  · obtain ⟨blobs, -, h⟩ := bind_ok.1 h
    cases h
    exact ⟨rfl, rfl⟩

theorem recordDockerBlob_rows {text : Text} {db db' : DockerDB} {size : Int}
    (h : recordDockerBlob text db r digest size = .ok db') :
    (db'.blobs.rows = db.blobs.rows ∧ ∃ b ∈ db.blobs.rows, b.repository = (sanitizeDockerKey text r "").1 ∧
      b.digest = dockerDigest text digest) ∨
      (¬∃ b ∈ db.blobs.rows, b.repository = (sanitizeDockerKey text r "").1 ∧ b.digest = dockerDigest text digest) ∧
        db'.blobs.rows = db.blobs.rows ++ [⟨(sanitizeDockerKey text r "").1, dockerDigest text digest, size⟩] := by
  unfold recordDockerBlob at h
  dsimp only at h
  split at h
  · rename_i hfind
    cases h
    refine .inl ⟨rfl, ?_⟩
    obtain ⟨b, hb⟩ := Option.isSome_iff_exists.1 hfind
    obtain ⟨hmem, hkey⟩ := Table.find?_eq_some.1 hb
    exact ⟨b, hmem, congrArg (·.1) hkey, congrArg (·.2) hkey⟩
  · obtain ⟨blobs, hblobs, h⟩ := bind_ok.1 h
    cases h
    refine .inr ⟨?_, (Table.insert_ok hblobs).2⟩
    rintro ⟨b, hb, hrepo, hdigest⟩
    rename_i hnone
    exact hnone (Option.isSome_iff_exists.2 ⟨b, Table.find?_eq_some.2 ⟨hb, Prod.ext hrepo hdigest⟩⟩)

theorem BlobsStored.record (henv : env.Named) (hw : BlobsStored env lists w) (hr : (env.repos r).isSome = true)
    (hd : sha256Digest env digest = true)
    {size : Int} (hsize : (∀ content, w.file (blobPath env r digest) = some content →
      (content.utf8ByteSize : Int) = size) ∨ Recorded env w r digest)
    (hfile : (w.file (blobPath env r digest)).isSome = true) {db : DockerDB}
    (h : recordDockerBlob env.text w.db r digest size = .ok db) :
    BlobsStored env lists { w with db } ∧ Recorded env { w with db } r digest := by
  have hlisted : Listed lists db := hw.listed.of_subset fun _ hb => (recordDockerBlob_links h).1 ▸ hb
  rcases recordDockerBlob_rows h with ⟨hrows, b, hb, hrepo, hdigest⟩ | ⟨hnone, hrows⟩
  · refine ⟨⟨hw.addressed, fun b hb => hw.stored b (hrows ▸ hb), hlisted, hw.tasks⟩, b, hrows.symm ▸ hb,
      hrepo, ?_⟩
    rw [hdigest, sha256Digest_key hd]
  · refine ⟨⟨hw.addressed, fun b hb r' hr' hrepo => ?_, hlisted, hw.tasks⟩,
      ⟨(sanitizeDockerKey env.text r "").1, dockerDigest env.text digest, size⟩, ?_, rfl, sha256Digest_key hd⟩
    · rw [hrows] at hb
      rcases List.mem_append.1 hb with hb | hb
      · exact hw.stored b hb r' hr' hrepo
      · obtain rfl := List.mem_singleton.1 hb
        obtain ⟨content, hcontent⟩ := Option.isSome_iff_exists.1 hfile
        obtain rfl := henv.key r r' hr hr' hrepo
        show sha256Digest env (dockerDigest env.text digest) = true ∧ _
        rw [sha256Digest_key hd]
        rcases hsize with hsize | ⟨b, hb, hrepo, hdigest⟩
        · exact ⟨hd, content, hcontent, hsize content hcontent⟩
        · exact absurd ⟨b, hb, hrepo, hdigest.trans (sha256Digest_key hd).symm⟩ hnone
    · show _ ∈ db.blobs.rows
      rw [hrows]
      exact List.mem_append_right _ (List.mem_singleton_self _)

theorem Leaves.record (henv : env.Named) (hr : (env.repos r).isSome = true) (hd : sha256Digest env digest = true)
    (hstores : req.Stores r digest) {size : Int} {db : DockerDB} (h : recordDockerBlob env.text w.db r digest size = .ok db) :
    Leaves env lists req w { w with db } := by
  have hlinks : ∀ key digest, ¬req.Unlinks env lists key digest → LinkKept key digest w.db db :=
    fun _ _ _ => .of_eq (recordDockerBlob_links h).1 (recordDockerBlob_links h).2
  rcases recordDockerBlob_rows h with ⟨hrows, -⟩ | ⟨-, hrows⟩
  · have hrecorded : ∀ r digest, Recorded env { w with db } r digest ↔ Recorded env w r digest := by
      intro r digest
      show (∃ b ∈ db.blobs.rows, _) ↔ _
      rw [hrows]
      exact Iff.rfl
    exact ⟨fun r digest _ _ _ => ⟨id, (hrecorded r digest).2⟩, fun r digest _ _ _ hnot h =>
      hnot ((hrecorded r digest).1 h), hlinks⟩
  · refine ⟨fun r' digest' _ _ _ => ⟨id, fun ⟨b, hb, hrow⟩ => ⟨b, ?_, hrow⟩⟩,
      fun r' digest' hr' hd' hnot hnone => ?_, hlinks⟩
    · show b ∈ db.blobs.rows
      rw [hrows]
      exact List.mem_append_left _ hb
    · rintro ⟨b, hb, hrepo, hdigest⟩
      change b ∈ db.blobs.rows at hb
      rw [hrows] at hb
      rcases List.mem_append.1 hb with hb | hb
      · exact hnone ⟨b, hb, hrepo, hdigest⟩
      · obtain rfl := List.mem_singleton.1 hb
        obtain rfl := henv.key r r' hr hr' hrepo
        refine hnot ?_
        rw [← hdigest, sha256Digest_key hd]
        exact hstores

theorem BlobsStored.discard (henv : env.Named) (hw : BlobsStored env lists w) (hr : (env.repos r).isSome = true)
    (hd : sha256Digest env digest = true)
    (hnone : ¬Recorded env w r digest) : BlobsStored env lists (w.removeFile (blobPath env r digest)) := by
  refine ⟨fun r' digest' content hr' hd' hfile => ?_, fun b hb r' hr' hrepo => ?_, hw.listed, hw.tasks⟩
  · rw [w.file_removeFile] at hfile
    split at hfile
    · cases hfile
    · exact hw.addressed r' digest' content hr' hd' hfile
  · obtain ⟨hb', content, hfile, hsize⟩ := hw.stored b hb r' hr' hrepo
    refine ⟨hb', content, ?_, hsize⟩
    rw [w.file_removeFile, if_neg, hfile]
    intro hpath
    obtain ⟨rfl, hdigest⟩ := blobPath_digest henv hr' hr hb' hd hpath
    exact hnone ⟨b, hb, hrepo, hdigest⟩

theorem Leaves.discard (henv : env.Named) (hr : (env.repos r).isSome = true) (hd : sha256Digest env digest = true)
    (hremoves : req.Removes env r digest) : Leaves env lists req w (w.removeFile (blobPath env r digest)) := by
  refine ⟨fun r' digest' hr' hd' hnot => ⟨fun hfile => ?_, id⟩, fun _ _ _ _ _ => id, fun key digest _ =>
    .refl key digest w.db⟩
  rw [w.file_removeFile, if_neg, hfile]
  intro hpath
  obtain ⟨rfl, rfl⟩ := blobPath_digest henv hr' hr hd' hd hpath
  exact hnot hremoves

end Steps

/-! ### Programs -/

section Rules
variable {env : Env} {lists : String → String → Prop} {occurs : String → Prop} {req : Request} {α β : Type}
  {Q : α → World → Prop} {R : β → World → Prop} {p : Handler α} {k : α → Handler β} {w : World}

/-- A program of a request that keeps the invariant, whatever requests apart from it do. -/
def Fits (env : Env) (lists : String → String → Prop) (occurs : String → Prop) (req : Request) (p : Handler α)
    (Q : α → World → Prop) (w : World) : Prop :=
  p.Relies (fun a b => Awaits env req a b ∧ Within occurs a ∧ Within occurs b) (Leaves env lists req)
    (fun s => Within occurs s → BlobsStored env lists s) (fun _ _ => True) (fun r s => ∀ a, r = .ok a → Q a s) w

theorem Fits.mono {S : α → World → Prop} (h : Fits env lists occurs req p Q w) (hQ : ∀ a w, Q a w → S a w) :
    Fits env lists occurs req p S w :=
  Proc.Relies.mono h fun _ _ hr a ha => hQ a _ (hr a ha)

theorem Fits.done {r : Except DockerError α} (h : ∀ a, r = .ok a → Q a w) : Fits env lists occurs req (.done r) Q w := h

theorem Fits.pure {a : α} (h : Q a w) : Fits env lists occurs req (.done (.ok a)) Q w := fun _ hb => Except.ok.inj hb ▸ h

theorem Fits.throw (e : DockerError) : Fits env lists occurs req (Proc.throw e) Q w := fun _ ha => nomatch ha

theorem Fits.bind (hp : Fits env lists occurs req p Q w) (hk : ∀ a w, Q a w → Fits env lists occurs req (k a) R w) :
    Fits env lists occurs req (p.bind k) R w :=
  Proc.Relies.bind hp (fun a w ha => hk a w (ha a rfl)) fun _ _ _ _ hb => nomatch hb

theorem Fits.attempt (hp : Fits env lists occurs req p Q w) :
    Fits env lists occurs req p.attempt (fun r w => ∀ a, r = .ok a → Q a w) w :=
  Proc.Relies.attempt (Proc.Relies.mono hp fun _ _ hr _ hb => Except.ok.inj hb ▸ hr)

theorem Fits.ofExcept {r : Except DockerError α} (h : ∀ a, r = .ok a → Q a w) :
    Fits env lists occurs req (Proc.ofExcept r) Q w := h

theorem Fits.require_bind {c : Prop} [Decidable c] {e : DockerError} {k : Unit → Handler β}
    (h : c → Fits env lists occurs req (k ()) R w) :
    Fits env lists occurs req ((Proc.ofExcept (require c e)).bind k) R w := by
  refine Fits.bind (Q := fun _ v => v = w ∧ c) (.ofExcept fun a ha => ⟨rfl, require_ok.1 ha⟩) fun _ v hv => ?_
  obtain ⟨rfl, hc⟩ := hv
  exact h hc

theorem Fits.frame {P : World → Prop} (hawaits : ∀ a b, P a → Awaits env req a b → P b)
    (hleaves : ∀ a b, P a → Leaves env lists req a b → P b)
    (hp : Fits env lists occurs req p Q w) (hw : P w) : Fits env lists occurs req p (fun a t => Q a t ∧ P t) w :=
  Proc.Relies.mono (Proc.Relies.frame (fun a b ha hab => hawaits a b ha hab.1) hleaves hp hw) fun _ _ h a ha =>
    ⟨h.1 a ha, h.2⟩

theorem Fits.present {key : Key} {digest : String} (hattaches : req.Attaches env key digest)
    (hnot : ¬req.Unlinks env lists key digest) (hp : Fits env lists occurs req p Q w) (hw : Present w.db key) :
      Fits env lists occurs req p (fun a t => Q a t ∧ Present t.db key) w :=
  .frame (fun _ _ ha hab => (hab.links key digest hattaches).present ha) (fun _ _ ha hab =>
    (hab.links key digest hnot).present ha) hp hw

theorem Fits.query {f : World → Except DockerError α}
    (h : ∀ t a, Awaits env req w t → Within occurs w → Within occurs t → BlobsStored env lists t → f t = .ok a →
      Q a t) :
    Fits env lists occurs req (query f) Q w :=
  Proc.Relies.ask (Leaves.refl req) (fun _ _ _ _ _ ha => by cases ha) fun t a ht hI hf _ hb =>
    Except.ok.inj hb ▸ h t a ht.1 ht.2.1 ht.2.2 (hI ht.2.2) hf

theorem Fits.tell {Q : Unit → World → Prop} {step : Step} {e : DockerError} {f : World → Except DockerError World}
    (h : ∀ t t', Awaits env req w t → Within occurs w → Within occurs t → BlobsStored env lists t → f t = .ok t' →
      (Within occurs t' → BlobsStored env lists t') ∧ Leaves env lists req t t' ∧ Q () t') :
    Fits env lists occurs req (Proc.tell step e f) Q w := by
  refine Proc.Relies.tell (Leaves.refl req) (fun _ _ _ _ _ ha => by cases ha) fun t t' ht hI _ hf => ?_
  obtain ⟨hstored, hleaves, hQ⟩ := h t t' ht.1 ht.2.1 ht.2.2 (hI ht.2.2) hf
  exact ⟨hstored, hleaves, fun _ _ => hQ⟩

/-- A program that does nothing to the blobs. -/
def Idle (env : Env) (lists : String → String → Prop) (occurs : String → Prop) (req : Request) (p : Handler α) :
    Prop := ∀ w, Fits env lists occurs req p (fun _ _ => True) w

theorem Fits.idle (hp : ∀ w, Fits env lists occurs req p Q w) :
    Idle env lists occurs req p := fun w => (hp w).mono fun _ _ _ => trivial

theorem Idle.done (r : Except DockerError α) : Idle env lists occurs req (.done r) := fun _ => .done fun _ _ => trivial

theorem Idle.throw (e : DockerError) : Idle env lists occurs req (Proc.throw e : Handler α) := fun _ => .throw e

theorem Idle.bind (hp : Idle env lists occurs req p) (hk : ∀ a, Idle env lists occurs req (k a)) :
    Idle env lists occurs req (p.bind k) :=
  fun w => (hp w).bind fun a w _ => hk a w

theorem Idle.attempt (hp : Idle env lists occurs req p) :
    Idle env lists occurs req p.attempt := Fits.idle fun w => (hp w).attempt

theorem Idle.query (f : World → Except DockerError α) :
    Idle env lists occurs req (query f) := fun _ => .query fun _ _ _ _ _ _ _ => trivial

theorem Idle.ofExcept (r : Except DockerError α) : Idle env lists occurs req (Proc.ofExcept r) := .done r

theorem Idle.require_bind {c : Prop} [Decidable c] {e : DockerError} {k : Unit → Handler β}
    (h : c → Idle env lists occurs req (k ())) :
    Idle env lists occurs req ((Proc.ofExcept (require c e)).bind k) :=
  fun w => .require_bind fun hc => h hc w

theorem Idle.tell {step : Step} {e : DockerError} {f : World → Except DockerError World}
    (h : ∀ t t', BlobsStored env lists t → f t = .ok t' → SameBlobs env lists req t t') :
      Idle env lists occurs req (Proc.tell step e f) := by
  refine fun w => .tell fun t t' _ _ _ hstored hf => ?_
  have hsame := h t t' hstored hf
  exact ⟨fun _ => hsame.stored hstored, hsame.leaves hstored, trivial⟩

theorem Idle.write_pure {f : World → World} (h : ∀ t, SameBlobs env lists req t (f t)) :
    Idle env lists occurs req (write fun w => Pure.pure (f w)) :=
  .tell fun t _ _ ht => Except.ok.inj ht ▸ h t

theorem Idle.with {step : Step} {e : DockerError} {f : World → Except DockerError DockerDB}
    (h : ∀ t db, f t = .ok db → db.blobs = t.db.blobs ∧ LinksKept env lists req t.db db) :
    Idle env lists occurs req (Proc.tell step e fun w => w.with (f w)) := by
  refine .tell fun t t' _ ht => ?_
  obtain ⟨db, hdb, rfl⟩ := map_ok.1 ht
  exact .db (h t db hdb).1 (h t db hdb).2

end Rules

/-! #### Requests that leave the blobs alone -/

section Idle
variable {env : Env} {lists : String → String → Prop} {occurs : String → Prop} {req : Request}

attribute [local irreducible] canReadDocker canWriteDocker parseRepositoryAndImage trimSlash

section Files
variable (henv : env.Named)
include henv

end Files

end Idle

/-! #### Reviews -/

section Approve
variable {env : Env} {lists : String → String → Prop} {occurs : String → Prop} {req : Request}

end Approve

/-! #### Requests that record and remove -/

section Blobs
variable {env : Env} {lists : String → String → Prop} {occurs : String → Prop} {req : Request} {r digest : String}
    {w : World}

theorem Awaits.file {w' : World} (h : Awaits env req w w') (hr : (env.repos r).isSome = true)
    (hd : sha256Digest env digest = true)
    (hstores : req.Stores r digest) (hfile : (w.file (blobPath env r digest)).isSome = true) :
    (w'.file (blobPath env r digest)).isSome = true :=
  (h.kept r digest hr hd hstores).1 hfile

theorem Awaits.recorded {w' : World} (h : Awaits env req w w') (hr : (env.repos r).isSome = true)
    (hd : sha256Digest env digest = true)
    (hstores : req.Stores r digest) (hrow : Recorded env w r digest) : Recorded env w' r digest :=
  (h.kept r digest hr hd hstores).2 hrow

/-- The blob is recorded in a repository that there is, and linked to the image. -/
structure Holds (env : Env) (r imageName digest : String) (w : World) : Prop where
  repo : (env.repos r).isSome = true
  sha256 : sha256Digest env digest = true
  recorded : Recorded env w r digest
  linked : Linked w.db (sanitizeDockerKey env.text r imageName) digest = true

theorem Holds.later {w' : World} {imageName : String} (h : Holds env r imageName digest w) (hstores : req.Stores r digest)
    (hattaches : req.Attaches env (sanitizeDockerKey env.text r imageName) digest) (hw : Awaits env req w w') :
      Holds env r imageName digest w' :=
  ⟨h.repo, h.sha256, hw.recorded h.repo h.sha256 hstores h.recorded, (hw.links _ _ hattaches).linked h.linked⟩

attribute [local irreducible] canReadDocker canWriteDocker parseRepositoryAndImage trimSlash

section Handlers
variable (henv : env.Named) (hsha : env.Sha256) (hdistinct : Distinct env occurs)
include henv hsha hdistinct

end Handlers

end Blobs

/-! ### Runs -/

/-- The image and the digests that an upload or a mount names. -/
def Request.digests : Request → List (String × String)
  | .postUpload _ name q =>
    (if q.mount ≠ "" ∧ q.source ≠ "" then [(name, q.mount)] else []) ++ if q.digest ≠ "" ∧
      q.body ≠ "" then [(name, q.digest)] else []
  | .putUpload _ name _ digest _ => [(name, digest)]
  | _ => []

section Runs
variable {env : Env} {lists : String → String → Prop} {occurs : String → Prop} {req : Request} {w : World}
    {r digest : String}

attribute [local irreducible] canReadDocker canWriteDocker parseRepositoryAndImage trimSlash

theorem stores_of_digests {p : String × String} (h : p ∈ req.digests) :
    req.Stores (parseRepositoryAndImage p.1).1 p.2 ∧ req.Attaches env (imageOf env.text p.1) p.2 := by
  cases req with
  | postUpload cred name q =>
    rcases List.mem_append.1 h with h | h <;> split at h
    · rw [List.mem_singleton.1 h]
      exact ⟨⟨rfl, .inr rfl⟩, rfl, .inr rfl⟩
    · cases h
    · rw [List.mem_singleton.1 h]
      exact ⟨⟨rfl, .inl rfl⟩, rfl, .inl rfl⟩
    · cases h
  | putUpload cred name id digest body =>
    rw [List.mem_singleton.1 h]
    exact ⟨⟨rfl, rfl⟩, rfl, rfl⟩
  | _ => exact absurd h List.not_mem_nil

/-- What the answer of an upload or a mount says. -/
def Answered (env : Env) (req : Request) (w : World) : Prop :=
  ∃ p ∈ req.digests, Holds env (parseRepositoryAndImage p.1).1 (parseRepositoryAndImage p.1).2 p.2 w ∧
    Present w.db (imageOf env.text p.1)

theorem Answered.later {w' : World} (h : Answered env req w) (hw : Awaits env req w w') : Answered env req w' := by
  obtain ⟨p, hp, hholds, hpresent⟩ := h
  obtain ⟨hstores, hattaches⟩ := @stores_of_digests env _ _ hp
  exact ⟨p, hp, hholds.later hstores hattaches hw, (hw.links _ _ hattaches).present hpresent⟩

end Runs

end Renop.Docker
