import Mathlib.Data.List.Dedup
import Renop.DockerNames
import Renop.DockerPaths

/-!
# Who gets a blob

A repository keeps every blob once, and the links of the images say who may have it. A link is right if the blob was
uploaded through the image, came with the cache of a mirror, or was mounted from an image that the user could read and
that had it already (`had`). Uploads, mounts, caches and approvals keep the links right in every interleaving. A pushed
manifest does if its blobs are linked already, and a session if it is one: `careful`.
-/

namespace Renop.Docker

open Sql Interleave
open Renop.Locks (readLocked asciiText ResourceLock)
open Renop.SuperTeam (Text)
open Renop.Cargo (Key)

/-! ### Origins -/

/-- The user could read the source of a mount when it was asked for. -/
def Origin.grants (text : Text) (user : User) (source : Repository) (path : String) : Origin → Bool
  | .asked db u s p => u = user && s = source && p = path && canReadDocker text db user source path
  | _ => false

/-- The image that a mount takes from. -/
def mountSource (text : Text) (source : Repository) (path : String) : Key :=
  sanitizeDockerKey text source.name (parseRepositoryAndImage path).2

/-- A blob has come to an image by an upload, a cache or a permitted mount. -/
def had (text : Text) : List Origin → Key → String → Bool
  | [], _, _ => false
  | .uploaded k d session :: origins, image, digest =>
    (k = image && d = digest && session.all plainID) || had text origins image digest
  | .cached k d :: origins, image, digest => (k = image && d = digest) || had text origins image digest
  | .mounted k d user source path :: origins, image, digest =>
    (k = image && d = digest && origins.any (Origin.grants text user source path) &&
      had text origins (mountSource text source path) digest) || had text origins image digest
  | .asked .. :: origins, image, digest => had text origins image digest

def Linked (db : DockerDB) (image : Key) (digest : String) :
    Bool := db.imageBlobs.any fun b => b.key = image && b.blobDigest = digest

/-- A session that is finished is one, and a pushed manifest has no blobs but those of its image. -/
def careful (step : Step) (w : World) : Bool :=
  match step with
  | .linkUpload session => session.all plainID
  | .putManifest image digests => digests.all fun d => Linked w.db image d
  | .query | .write => true

/-- Every link has an origin. -/
def LinksRight (text : Text) (w : World) : Prop := ∀ b ∈ w.db.imageBlobs, had text w.origins b.key b.blobDigest = true

/-- The origins have grown. -/
def Later (w w' : World) : Prop := w.origins <:+ w'.origins

section Origins
variable {text : Text} {image : Key} {digest : String} {origins : List Origin} {w w' : World}

theorem had_cons (o : Origin) (h : had text origins image digest = true) : had text (o :: origins) image digest = true := by
  cases o <;> simp [had, h]

theorem had_suffix {origins' : List Origin} (hle : origins <:+ origins') (h : had text origins image digest = true) :
    had text origins' image digest = true := by
  obtain ⟨l, rfl⟩ := hle
  induction l with
  | nil => exact h
  | cons o l ih => exact had_cons o ih

theorem had_later (hle : Later w w') (h : had text w.origins image digest = true) : had text w'.origins image digest = true :=
  had_suffix hle h

theorem Later.refl (w : World) : Later w w := List.suffix_rfl

theorem Later.trans {w₁ w₂ w₃ : World} (h : Later w₁ w₂) (h' : Later w₂ w₃) :
    Later w₁ w₃ := List.IsSuffix.trans h h'

theorem had_cached {l : List Origin} (h : Origin.cached image digest ∈ l) :
    had text (l ++ origins) image digest = true := by
  induction l with
  | nil => simp at h
  | cons o l ih =>
    rcases List.mem_cons.1 h with rfl | h
    · simp [had]
    · exact had_cons o (ih h)

theorem linked_had (hright : LinksRight text w) (h : Linked w.db image digest = true) :
    had text w.origins image digest = true := by
  unfold Linked at h
  rw [List.any_eq_true] at h
  obtain ⟨b, hb, hmine⟩ := h
  rw [Bool.and_eq_true, decide_eq_true_eq, decide_eq_true_eq] at hmine
  obtain ⟨rfl, rfl⟩ := hmine
  exact hright b hb

theorem referencesBlob_had {repository imageName : String} (hright : LinksRight text w)
    (h : dockerImageReferencesBlob text w.db repository imageName digest = true) :
    had text w.origins (sanitizeDockerKey text repository imageName) (dockerDigest text digest) = true :=
  linked_had hright h

/-! ### What the writes link -/

theorem linksRight_fewer (hright : LinksRight text w) (hblobs : ∀ b ∈ w'.db.imageBlobs, b ∈ w.db.imageBlobs)
    (horigins : w'.origins = w.origins) : LinksRight text w' ∧ Later w w' := by
  refine ⟨fun b hb => ?_, ?_⟩
  · rw [horigins]
    exact hright b (hblobs b hb)
  · unfold Later
    rw [horigins]

variable {db db' : DockerDB}

theorem recordDockerBlob_blobs {repository : String} {size : Int}
    (h : recordDockerBlob text db repository digest size = .ok db') :
    db'.imageBlobs = db.imageBlobs := by
  unfold recordDockerBlob at h
  dsimp only at h
  split at h
  · cases h
    rfl
  · obtain ⟨blobs, -, h⟩ := bind_ok.1 h
    cases h
    rfl

theorem recordDockerImageBlob_blobs {repository imageName : String}
    (h : recordDockerImageBlob text db repository imageName digest = .ok db') :
    ∀ b ∈ db'.imageBlobs, b ∈ db.imageBlobs ∨
      (b.key = sanitizeDockerKey text repository imageName ∧ b.blobDigest = dockerDigest text digest) := by
  obtain ⟨-, h⟩ := require_bind_ok.1 h
  obtain ⟨-, -, h⟩ := bind_ok.1 h
  dsimp only at h
  split at h
  · cases h
    exact fun b hb => .inl hb
  · cases h
    intro b hb
    rcases List.mem_append.1 hb with hb | hb
    · exact .inl hb
    · rw [List.mem_singleton.1 hb]
      exact .inr ⟨rfl, rfl⟩

theorem mem_linkBlobs {m : ManifestWrite} {links : List ImageBlob} {b : ImageBlob} (h : b ∈ linkBlobs text m links) :
    b ∈ links ∨ (b.key = (m.repository, m.imageName) ∧ b.blobDigest ∈ (m.blobDigests.map (dockerDigest text)).filter
      (· ≠ "")) := by
  unfold linkBlobs at h
  have hdigests : ∀ d ∈ ((m.blobDigests.map (dockerDigest text)).filter (· ≠ "")).dedup,
      d ∈ (m.blobDigests.map (dockerDigest text)).filter (· ≠ "") := fun d hd => List.mem_dedup.1 hd
  generalize ((m.blobDigests.map (dockerDigest text)).filter (· ≠ "")).dedup = digests at h hdigests
  -- the links of the manifest before are gone first
  have hlinks : ∀ x ∈ links.filter (fun b => !(b.repository = m.repository && b.imageName = m.imageName &&
      b.manifestDigest = m.digest)), x ∈ links := fun x hx => List.mem_of_mem_filter hx
  generalize links.filter (fun b => !(b.repository = m.repository && b.imageName = m.imageName && b.manifestDigest =
    m.digest)) = start at h hlinks
  have hrest : b ∈ start ∨ ∃ d ∈ digests, b = ⟨m.repository, m.imageName, m.digest, d⟩ := by
    clear hdigests hlinks
    induction digests generalizing start with
    | nil => exact .inl h
    | cons d digests ih =>
      rcases ih _ h with hs | ⟨e, he, rfl⟩
      · rcases List.mem_append.1 hs with hs | hs
        · exact .inl (List.mem_of_mem_filter hs)
        · exact .inr ⟨d, by simp, List.mem_singleton.1 hs⟩
      · exact .inr ⟨e, List.mem_cons_of_mem _ he, rfl⟩
  rcases hrest with hs | ⟨e, he, rfl⟩
  · exact .inl (hlinks b hs)
  · exact .inr ⟨rfl, hdigests e he⟩

end Origins

/-! ### What a handler keeps -/

section Rules
variable {α β : Type} (text : Text)

/-- Whatever the others do, a program keeps the links right, and what it returns is as `post` says. -/
def Safe (p : Handler α) (post : α → World → Prop) (w : World) : Prop :=
  p.Keeps Later (LinksRight text) (fun step w => careful step w = true) (fun r w => ∀ a, r = .ok a → post a w) w

/-- A program that may run at any time. -/
def Always (p : Handler α) : Prop := ∀ w, Safe text p (fun _ _ => True) w

variable {text} {w : World} {post : α → World → Prop} {post' : β → World → Prop} {p : Handler α}
    {k : α → Handler β}

theorem Safe.mono {post₁ : α → World → Prop} (h : Safe text p post w) (hpost : ∀ a w, post a w → post₁ a w) :
    Safe text p post₁ w :=
  Proc.Keeps.mono (fun _ w hr a ha => hpost a w (hr a ha)) h

theorem Safe.done {r : Except DockerError α} (h : ∀ a, r = .ok a → post a w) : Safe text (.done r) post w := h

theorem Safe.throw (e : DockerError) : Safe text (Proc.throw e) post w := by
  intro a ha
  cases ha

theorem Safe.bind (hp : Safe text p post w) (hk : ∀ a w, post a w → Safe text (k a) post' w) :
    Safe text (p.bind k) post' w := by
  refine Proc.Keeps.bind (Proc.Keeps.mono (fun r w hr => ?_) hp)
  cases r with
  | ok a => exact hk a w (hr a rfl)
  | error e => exact fun a ha => nomatch ha

theorem Safe.frame {P : World → Prop} (hP : ∀ w w', Later w w' → P w → P w') (hp : Safe text p post w) (hw : P w) :
    Safe text p (fun a w => post a w ∧ P w) w :=
  Proc.Keeps.mono (fun _ _ hr a ha => ⟨hr.1 a ha, hr.2⟩) (Proc.Keeps.frame hP hp hw)

theorem Safe.query {f : World → Except DockerError α}
    (h : ∀ t a, Later w t → LinksRight text t → f t = .ok a → post a t) :
    Safe text (query f) post w :=
  .ask Later.refl (fun _ _ _ _ _ ha => nomatch ha) fun t a hle hright hf b hb => by
    cases hb
    exact h t a hle hright hf

theorem Safe.tell {post : Unit → World → Prop} {step : Step} {e : DockerError} {f : World → Except DockerError World}
    (h : ∀ t t', Later w t → LinksRight text t → careful step t = true → f t = .ok t' →
      LinksRight text t' ∧ Later t t' ∧ post () t') :
    Safe text (Proc.tell step e f) post w :=
  Proc.Keeps.tell Later.refl (fun _ _ _ _ _ ha => nomatch ha) fun t t' hle hright hgood hf => by
    obtain ⟨hright', hle', hpost⟩ := h t t' hle hright hgood hf
    exact ⟨hright', hle', fun _ _ => hpost⟩

theorem Safe.require_bind {c : Prop} [Decidable c] {e : DockerError} {k : Unit → Handler β}
    (h : c → Safe text (k ()) post' w) :
    Safe text ((Proc.ofExcept (require c e)).bind k) post' w := by
  by_cases hc : c
  · rw [require_ok.2 hc]
    exact h hc
  · unfold require
    rw [if_neg hc]
    exact .throw e

theorem Always.done (r : Except DockerError α) : Always text (.done r) := fun _ _ _ => trivial

theorem Always.throw (e : DockerError) : Always text (Proc.throw e : Handler α) := Always.done _

theorem Always.ofExcept (r : Except DockerError α) : Always text (Proc.ofExcept r) := Always.done r

theorem Always.bind (hp : Always text p) (hk : ∀ a, Always text (k a)) : Always text (p.bind k) :=
  fun w => (hp w).bind fun a w _ => hk a w

theorem Always.attempt (hp : Always text p) : Always text p.attempt :=
  fun w => Proc.Keeps.attempt (Proc.Keeps.mono (fun _ _ _ _ _ => trivial) (hp w))

theorem Always.query (f : World → Except DockerError α) : Always text (query f) := fun _ => .query fun _ _ _ _ _ => trivial

theorem Always.tell {step : Step} {e : DockerError} {f : World → Except DockerError World}
    (h : ∀ t t', f t = .ok t' → (∀ b ∈ t'.db.imageBlobs, b ∈ t.db.imageBlobs) ∧ t'.origins = t.origins) :
    Always text (Proc.tell step e f) :=
  fun _ => .tell fun t t' _ hright _ hf => by
    obtain ⟨hblobs, horigins⟩ := h t t' hf
    obtain ⟨hright', hle⟩ := linksRight_fewer hright hblobs horigins
    exact ⟨hright', hle, trivial⟩

theorem Always.write {f : World → Except DockerError World}
    (h : ∀ t t', f t = .ok t' → (∀ b ∈ t'.db.imageBlobs, b ∈ t.db.imageBlobs) ∧ t'.origins = t.origins) :
      Always text (write f) :=
  .tell h

theorem Always.write_pure {f : World → World} (hdb : ∀ t, (f t).db.imageBlobs = t.db.imageBlobs)
    (horigins : ∀ t, (f t).origins = t.origins) :
    Always text (Docker.write fun w => pure (f w)) := by
  refine .write fun t t' h => ?_
  cases h
  exact ⟨fun b hb => hdb t ▸ hb, horigins t⟩

theorem Always.write_with {f : World → Except DockerError DockerDB}
    (h : ∀ t db, f t = .ok db → ∀ b ∈ db.imageBlobs, b ∈ t.db.imageBlobs) :
      Always text (Docker.write fun w => w.with (f w)) := by
  refine .write fun t t' ht => ?_
  unfold World.with at ht
  cases hf : f t with
  | error e =>
    rw [hf] at ht
    cases ht
  | ok db =>
    rw [hf] at ht
    cases ht
    exact ⟨h t db hf, rfl⟩

theorem Always.commitContent (env : Env) (repository digest content : String) :
    Always text (Docker.write (commitContent env repository digest content)) := by
  refine .write fun t t' h => ?_
  obtain ⟨-, -, h⟩ := bind_ok.1 h
  obtain ⟨-, h⟩ := require_bind_ok.1 h
  obtain rfl := Except.ok.inj h
  exact ⟨fun _ hb => hb, by simp⟩

theorem Always.commitBlob (env : Env) (repository uploadUUID digest : String) :
    Always text (Docker.write (commitBlob env repository uploadUUID digest)) := by
  refine .write fun t t' h => ?_
  obtain ⟨-, -, h⟩ := bind_ok.1 h
  obtain ⟨content, -, h⟩ := bind_ok.1 h
  obtain ⟨-, h⟩ := require_bind_ok.1 h
  obtain rfl := Except.ok.inj h
  exact ⟨fun _ hb => hb, by simp⟩

end Rules

/-! ### The handlers -/

section Handlers
variable (env : Env)

attribute [local irreducible] canReadDocker parseRepositoryAndImage trimSlash

theorem authorized_always (cred : Credentials) (name : String) (action : Action) :
    Always env.text (authorized env cred name action) :=
  (Always.ofExcept _).bind fun _ => (Always.query _).bind fun _ => .done _

theorem authorized_safe (cred : Credentials) (name : String) (action : Action) (w : World) :
    Safe env.text (authorized env cred name action) (fun a _ => a.1.name = (parseRepositoryAndImage name).1) w := by
  unfold authorized
  cases hrepo : env.repos (parseRepositoryAndImage name).1 with
  | none =>
    simp only [Env.getRepo, hrepo, Option.map_none, orError, Proc.bind_eq]
    exact .done fun a ha => by cases ha
  | some config =>
    simp only [Env.getRepo, hrepo, Option.map_some, orError, Proc.bind_eq]
    show Safe env.text ((query _).bind _) _ w
    refine Safe.bind (Always.query _ w) fun user w _ => ?_
    exact .done fun a ha => by
      cases ha
      rfl

theorem mutateImage_always {name : String} {handler : Handler Served} (h : Always env.text handler) :
    Always env.text (mutateImage env name handler) := by
  unfold mutateImage
  dsimp only
  split
  · exact h
  · exact (Always.query _).bind fun _ => h

theorem handleTagsList_always (cred : Credentials) (name last : String) (n : Int) :
    Always env.text (handleTagsList env cred name last n) :=
  (authorized_always env cred name .pull).bind fun _ => (Always.query _).bind fun _ => .done _

/-! #### Manifests of a mirror -/

theorem normalizeDockerManifestWrite_ok {text : Text} {m write : ManifestWrite} {tag tag' username : String}
    (h : normalizeDockerManifestWrite text m tag username = .ok (write, tag')) :
    (write.repository, write.imageName) = sanitizeDockerKey text m.repository m.imageName ∧
      write.blobDigests = m.blobDigests := by
  obtain ⟨-, h⟩ := require_bind_ok.1 h
  cases h
  exact ⟨rfl, rfl⟩

theorem putDockerManifestTx_blobs {text : Text} {db db' : DockerDB} {m : ManifestWrite} {tag : String}
    {allowMirrorCreate : Bool} (h : putDockerManifestTx text db m tag allowMirrorCreate = .ok db') :
      db'.imageBlobs = linkBlobs text m db.imageBlobs := by
  obtain ⟨images, -, h⟩ := bind_ok.1 h
  obtain ⟨-, -, h⟩ := bind_ok.1 h
  dsimp only at h
  split at h
  · obtain ⟨-, -, h⟩ := bind_ok.1 h
    obtain ⟨manifests, -, h⟩ := bind_ok.1 h
    obtain ⟨tags, -, h⟩ := bind_ok.1 h
    cases h
    rfl
  · obtain ⟨manifests, -, h⟩ := bind_ok.1 h
    obtain ⟨tags, -, h⟩ := bind_ok.1 h
    cases h
    rfl

theorem linkBlobs_right {w : World} {m write : ManifestWrite} {tag tag' username : String} {origins : List Origin}
    (hwrite : normalizeDockerManifestWrite env.text m tag username = .ok (write, tag')) (hright : LinksRight env.text w)
    (hlater : w.origins <:+ origins)
    (hblobs : ∀ d ∈ blobKeys env m.blobDigests, had env.text origins (sanitizeDockerKey env.text m.repository m.imageName)
      d = true) :
    ∀ b ∈ linkBlobs env.text write w.db.imageBlobs, had env.text origins b.key b.blobDigest = true := by
  obtain ⟨hkey, hdigests⟩ := normalizeDockerManifestWrite_ok hwrite
  intro b hb
  rcases mem_linkBlobs hb with hb | ⟨hk, hd⟩
  · exact had_suffix hlater (hright b hb)
  · rw [hk, hkey]
    rw [hdigests] at hd
    exact hblobs _ hd

theorem mem_cachedOrigins {m : ManifestWrite} {d : String} (h : d ∈ blobKeys env m.blobDigests) :
    Origin.cached (sanitizeDockerKey env.text m.repository m.imageName) d ∈ cachedOrigins env m :=
  List.mem_map.2 ⟨d, h, rfl⟩

theorem cacheDockerManifest_always (m : ManifestWrite) (tag : String) : Always env.text (cacheDockerManifest env m tag) := by
  intro w
  refine .tell fun t t' _ hright _ h => ?_
  cases hput : putDockerManifest env.text t.db m tag "mirror" true with
  | error e =>
    rw [hput] at h
    cases h
  | ok db =>
    rw [hput] at h
    cases h
    obtain ⟨⟨write, tag'⟩, hwrite, htx⟩ := bind_ok.1 hput
    have hlater : t.origins <:+ cachedOrigins env m ++ t.origins := List.suffix_append _ _
    refine ⟨fun b hb => ?_, hlater, trivial⟩
    replace hb : b ∈ db.imageBlobs := hb
    rw [putDockerManifestTx_blobs htx] at hb
    exact linkBlobs_right env hwrite hright hlater (fun d hd => had_cached (mem_cachedOrigins env hd)) b hb

theorem cacheUpstreamManifest_always (repo : Repository) (imageName reference : String) (access : Access)
    (upstream : Upstream) : Always env.text (cacheUpstreamManifest env repo imageName reference access upstream) := by
  refine (Always.ofExcept _).bind fun _ => (Always.query _).bind fun _ => ?_
  cases upstream with
  | missing => exact .throw _
  | invalid => exact .throw _
  | found raw mediaType digest =>
    refine (Always.query _).bind fun _ => (Always.ofExcept _).bind fun parsed => (cacheDockerManifest_always env _ _).bind
      fun _ => ?_
    split
    · exact (Always.attempt (.write_pure (f := fun w => w.writeFile (manifestPath env repo.name imageName digest) raw)
        (fun _ => rfl) fun _ => rfl)).bind fun _ => .done _
    · exact .done _

theorem serveManifest_always (repo : Repository) (user : User) (imageName digest mediaType : String) (access : Access)
    (upstream : Upstream) : Always env.text (serveManifest env repo user imageName digest mediaType access upstream) := by
  refine (Always.query _).bind fun locked => (Always.query _).bind fun m => ?_
  cases m with
  | some m =>
    dsimp only
    split
    · exact .done _
    · exact (Always.query _).bind fun _ => .done _
  | none =>
    refine (Always.ofExcept _).bind fun _ => (Always.query _).bind fun raw => ?_
    cases raw with
    | some raw => exact .done _
    | none =>
      refine (Always.ofExcept _).bind fun _ => ?_
      cases upstream with
      | missing => exact .throw _
      | invalid => exact .throw _
      | found raw mediaType digest => exact .done _

theorem handleGetManifest_always (cred : Credentials) (name reference : String) (upstream : Upstream) :
    Always env.text (handleGetManifest env cred name reference upstream) := by
  refine (Always.ofExcept _).bind fun _ => (authorized_always env cred name .pull).bind fun ⟨repo, user⟩ =>
    (Always.query _).bind fun access => ?_
  split
  · exact serveManifest_always env repo user _ _ _ _ _
  · refine (Always.query _).bind fun tag => ?_
    cases tag with
    | some tag => exact serveManifest_always env repo user _ _ _ _ _
    | none => exact cacheUpstreamManifest_always env repo _ _ _ _

/-! #### Blobs -/

theorem recordDockerBlob_always (repository digest : String) (size : Int) :
    Always env.text (write fun w => w.with (recordDockerBlob env.text w.db repository digest size)) :=
  .write_with fun t db h b hb => by
    rw [recordDockerBlob_blobs h] at hb
    exact hb

theorem cacheBlob_always (repo : Repository) (digest content : String) :
    Always env.text (cacheBlob env repo digest content) := by
  unfold cacheBlob
  split
  · refine (Always.attempt (Always.query _)).bind fun unlocked => ?_
    cases unlocked with
    | error e => exact .ofExcept _
    | ok _ =>
      refine (Always.attempt (.commitContent env repo.name digest content)).bind fun committed => ?_
      cases committed with
      | error e => exact .done _
      | ok _ => exact (Always.attempt (recordDockerBlob_always env _ _ _)).bind fun _ => .done _
  · exact .done _

theorem referencesBlob_safe (repository imageName digest : String) (w : World) :
    Safe env.text (query fun w => pure (dockerImageReferencesBlob env.text w.db repository imageName digest)) (fun linked w =>
      linked = true → had env.text w.origins (sanitizeDockerKey env.text repository imageName)
        (dockerDigest env.text digest) = true) w :=
  .query fun t linked _ hright h hlinked => by
    cases h
    exact referencesBlob_had hright hlinked

theorem fromUpstream_safe (repo : Repository) (digest : String) (upstream : Option String) (locks : List ResourceLock)
    {post : Served → World → Prop} (hpost : ∀ w, post .upstream w) (w : World) :
    Safe env.text (do
      Proc.ofExcept (require (locks = []) .blobUnknown)
      let content ← Proc.ofExcept (orError upstream .blobUnknown)
      cacheBlob env repo digest content
      pure Served.upstream) post w := by
  refine (Always.ofExcept _ w).bind fun _ w _ => (Always.ofExcept _ w).bind fun content w _ =>
    (cacheBlob_always env repo digest content w).bind fun _ w _ => .done fun served hserved => ?_
  cases hserved
  exact hpost w

theorem handleGetBlob_safe (cred : Credentials) (name digest : String) (upstream : Option String) (w : World) :
    Safe env.text (handleGetBlob env cred name digest upstream) (fun served w => ∀ content, served = .localBlob content →
      had env.text w.origins (sanitizeDockerKey env.text (parseRepositoryAndImage name).1 (parseRepositoryAndImage name).2)
        (dockerDigest env.text digest) = true) w := by
  refine (authorized_safe env cred name .pull w).bind fun ⟨repo, user⟩ w hrepo => ?_
  replace hrepo : repo.name = (parseRepositoryAndImage name).1 := hrepo
  refine (Always.query _ w).bind fun locks w _ => (Always.ofExcept _ w).bind fun _ w _ =>
    (Always.query _ w).bind fun access w _ => ?_
  rw [← hrepo]
  dsimp only
  split
  · -- the link is checked before the file is read
    refine (referencesBlob_safe env _ _ _ w).bind fun linked w hlinked => ?_
    refine .require_bind fun hl => ?_
    simp only [Proc.pure_eq, Proc.bind_eq, Proc.bind, if_true]
    refine ((Always.query _ w).frame (fun _ _ => had_later) (hlinked hl)).bind fun content w hhad => ?_
    cases content with
    | some content => exact .done fun _ _ _ _ => hhad.2
    | none => exact fromUpstream_safe env repo digest upstream locks (fun _ _ hlocal => by cases hlocal) w
  · exact fromUpstream_safe env repo digest upstream locks (fun _ _ hlocal => by cases hlocal) w

/-! #### Uploads and mounts -/

theorem linkBlob_always {step : Step} {repository imageName digest : String} {size : Int} {origin : Origin} {w : World}
    (horigin : ∀ t, Later w t → careful step t = true → had env.text (origin :: t.origins)
      (sanitizeDockerKey env.text repository imageName) (dockerDigest env.text digest) = true) :
    Safe env.text (linkBlob env step repository imageName digest size origin) (fun _ _ => True) w := by
  refine ((recordDockerBlob_always env repository digest size w).frame (P := Later w) (fun _ _ h h' => h'.trans h)
    (.refl w)).bind fun _ w' hw' => .tell fun t t' hle hright hgood h => ?_
  cases hlink : recordDockerImageBlob env.text t.db repository imageName digest with
  | error e =>
    rw [hlink] at h
    cases h
  | ok db =>
    rw [hlink] at h
    cases h
    refine ⟨fun b hb => ?_, List.suffix_cons _ _, trivial⟩
    rcases recordDockerImageBlob_blobs hlink b hb with hb | ⟨hkey, hdigest⟩
    · exact had_cons origin (hright b hb)
    · show had env.text (origin :: t.origins) b.key b.blobDigest = true
      rw [hkey, hdigest]
      exact horigin t (hw'.2.trans hle) hgood

/-- The user asked for the source when he could read it, and the source had the blob. -/
def Mountable (user : User) (source digest : String) (w : World) : Prop :=
  ∀ repository, env.getRepo (parseRepositoryAndImage source).1 = some repository →
    w.origins.any (Origin.grants env.text user repository source) = true ∧
      had env.text w.origins (mountSource env.text repository source) (dockerDigest env.text digest) = true

theorem any_later {p : Origin → Bool} {w w' : World} (hle : Later w w') (h : w.origins.any p = true) :
    w'.origins.any p = true := by
  rw [List.any_eq_true] at h ⊢
  obtain ⟨o, ho, hp⟩ := h
  exact ⟨o, hle.subset ho, hp⟩

theorem asked_safe (user : User) (repository : Repository) (source : String) (w : World) :
    Safe env.text (Proc.call .query .unavailable fun w => .ok (canReadDocker env.text w.db user repository source,
        { w with origins := .asked w.db user repository source :: w.origins })) (fun canReadSource w =>
          canReadSource = true →
      w.origins.any (Origin.grants env.text user repository source) = true) w := by
  refine Proc.Keeps.call Later.refl (fun _ _ _ _ _ ha => nomatch ha) fun t a t' _ hright _ hf => ?_
  cases hf
  refine ⟨fun b hb => had_cons _ (hright b hb), List.suffix_cons _ _, fun a ha hread => ?_⟩
  cases ha
  simp [Origin.grants, hread]

theorem askSource_safe (user : User) (source mountDigest : String) (w : World) :
    Safe env.text (askSource env user source mountDigest) (fun mountable w => mountable = true →
      Mountable env user source mountDigest w) w := by
  have hfalse : ∀ w, Safe env.text (pure false) (fun mountable w => mountable = true →
      Mountable env user source mountDigest w) w := by
    intro w mountable hm
    cases hm
    simp
  unfold askSource
  dsimp only
  cases hrepo : env.getRepo (parseRepositoryAndImage source).1 with
  | none => exact hfalse w
  | some fromRepository =>
    have hname : fromRepository.name = (parseRepositoryAndImage source).1 := by
      obtain ⟨config, -, rfl⟩ := Option.map_eq_some_iff.1 hrepo
      rfl
    dsimp only
    split
    · exact hfalse w
    · refine (asked_safe env user fromRepository source w).bind fun canReadSource w hasked => ?_
      cases canReadSource with
      | false => exact hfalse w
      | true =>
        refine ((Always.query _ w).frame (fun _ _ => any_later) (hasked rfl)).bind fun locks w hasked => ?_
        refine ((Always.ofExcept _ w).frame (fun _ _ => any_later) hasked.2).bind fun _ w hasked => ?_
        refine ((referencesBlob_safe env _ _ _ w).frame (fun _ _ => any_later) hasked.2).bind fun linked w hknown => ?_
        cases linked with
        | false => exact Safe.bind (Always.query _ w) fun stored w _ => hfalse w
        | true =>
          have hmount : Mountable env user source mountDigest w := by
            intro repository h
            obtain rfl : fromRepository = repository := Option.some.inj (hrepo.symm.trans h)
            exact ⟨hknown.2, by
              unfold mountSource
              rw [hname]
              exact hknown.1 rfl⟩
          refine ((Always.query _ w).frame (fun a b hle h repository hr => ⟨any_later hle (h repository hr).1,
            had_later hle (h repository hr).2⟩) hmount).bind fun stored w hmount => .done fun _ _ _ => hmount.2

theorem startUpload_always (repository imageName : String) (q : UploadQuery) :
    Always env.text (startUpload env repository imageName q) := by
  refine (Always.write_pure (f := fun w => w.mkdirAll (parentDir (stagingPath env repository q.uuid))) (fun _ => by simp)
    fun _ => by simp).bind
    fun _ => ?_
  split
  · refine (Always.ofExcept _).bind fun _ => (Always.query _).bind fun _ =>
      (Always.commitContent env repository q.digest q.body).bind
      fun _ w => ?_
    refine (linkBlob_always env fun t _ hgood => ?_).bind fun _ w _ => .done fun _ _ => trivial
    simp [had]
  · exact (Always.write_pure (f := fun w => if (w.file (stagingPath env repository q.uuid)).isSome then w
      else w.writeFile (stagingPath env repository q.uuid) "") (fun t => by split <;> rfl) fun t => by split <;> rfl).bind
        fun _ => .done _

theorem handlePostUpload_always (cred : Credentials) (name : String) (q : UploadQuery) :
    Always env.text (handlePostUpload env cred name q) := by
  refine (authorized_always env cred name .push).bind fun ⟨repo, user⟩ w => ?_
  have hmount : ∀ mountable w, (mountable = true → Mountable env user q.source q.mount w) →
    Safe env.text (mountOrUpload env repo user (parseRepositoryAndImage name).2 q mountable) (fun _ _ => True) w := by
    intro mountable w hknown
    unfold mountOrUpload
    split
    · split
      · exact .throw _
      · rename_i hmountable _ source hsource
        obtain ⟨hasked, hhad⟩ := hknown hmountable source hsource
        refine ((Always.query _ w).frame (P := Later w) (fun _ _ hle h => h.trans hle) (.refl w)).bind fun size w' hw' => ?_
        refine (linkBlob_always env fun t hle _ => ?_).bind fun _ w _ => .done fun _ _ => trivial
        simp [had, any_later (hw'.2.trans hle) hasked, had_later (hw'.2.trans hle) hhad]
    · exact startUpload_always env _ _ q w
  dsimp only
  split
  · exact (askSource_safe env user q.source q.mount w).bind hmount
  · exact hmount false w fun h => by cases h

theorem appendStaged_always (repository uploadUUID body : String) :
    Always env.text (appendStaged env repository uploadUUID body) := by
  refine .tell fun t t' h => ?_
  obtain ⟨-, h⟩ := require_bind_ok.1 h
  cases h
  exact ⟨fun _ hb => hb, rfl⟩

theorem handlePatchUpload_always (cred : Credentials) (name uploadUUID body : String) :
    Always env.text (handlePatchUpload env cred name uploadUUID body) :=
  (authorized_always env cred name .push).bind fun _ => (appendStaged_always env _ _ _).bind fun _ => .done _

theorem handlePutUpload_always (cred : Credentials) (name uploadUUID digest body : String) :
    Always env.text (handlePutUpload env cred name uploadUUID digest body) := by
  refine (Always.ofExcept _).bind fun _ => (authorized_always env cred name .push).bind fun ⟨repo, user⟩ =>
    (appendStaged_always env _ _ _).bind fun _ => (Always.query _).bind fun content => ?_
  split
  · exact (Always.write_pure (f := fun w => w.removeFile (stagingPath env repo.name uploadUUID)) (fun _ => rfl) fun _ =>
      rfl).bind
      fun _ => .throw _
  · refine (Always.query _).bind fun _ => (Always.commitBlob env repo.name uploadUUID digest).bind fun _ w => ?_
    -- the session is a plain one in a careful run
    refine (linkBlob_always env fun t _ hgood => ?_).bind fun _ w _ => .done fun _ _ => trivial
    simp [had, show (some uploadUUID).all plainID = true from hgood]

theorem handleGetUploadStatus_always (cred : Credentials) (name uploadUUID : String) :
    Always env.text (handleGetUploadStatus env cred name uploadUUID) :=
  (authorized_always env cred name .push).bind fun _ => (appendStaged_always env _ _ _).bind fun _ => .done _

theorem handleDeleteUpload_always (cred : Credentials) (name uploadUUID : String) :
    Always env.text (handleDeleteUpload env cred name uploadUUID) := by
  refine (authorized_always env cred name .push).bind fun ⟨repo, user⟩ => (Always.attempt ?_).bind fun _ => .done _
  refine .write_pure (fun t => ?_) fun t => ?_ <;> split <;> rfl

/-! #### Manifests -/

theorem writeFile_always (path content : String) : Always env.text (write fun w => pure (w.writeFile path content)) :=
  .write_pure (fun _ => rfl) fun _ => rfl

theorem removeFile_always (path : String) : Always env.text (write fun w => pure (w.removeFile path)) :=
  .write_pure (fun _ => rfl) fun _ => rfl

theorem putDockerManifest_always (m : ManifestWrite) (tag username : String) :
    Always env.text (Proc.tell (.putManifest (sanitizeDockerKey env.text m.repository m.imageName)
      (blobKeys env m.blobDigests))
      .unavailable fun w => w.with (putDockerManifest env.text w.db m tag username false)) := by
  intro w
  refine .tell fun t t' _ hright hgood h => ?_
  cases hput : putDockerManifest env.text t.db m tag username false with
  | error e =>
    rw [hput] at h
    cases h
  | ok db =>
    rw [hput] at h
    cases h
    obtain ⟨⟨write, tag'⟩, hwrite, htx⟩ := bind_ok.1 hput
    refine ⟨fun b hb => ?_, .refl t, trivial⟩
    replace hb : b ∈ db.imageBlobs := hb
    rw [putDockerManifestTx_blobs htx] at hb
    exact linkBlobs_right env hwrite hright List.suffix_rfl (fun d hd => linked_had hright (List.all_eq_true.1 hgood d hd)) b
      hb

theorem handlePutManifest_always (cred : Credentials) (name reference body contentType : String) :
    Always env.text (handlePutManifest env cred name reference body contentType) := by
  refine (Always.ofExcept _).bind fun _ => (authorized_always env cred name .push).bind fun ⟨repo, user⟩ =>
    (Always.ofExcept _).bind fun parsed => (Always.ofExcept _).bind fun _ =>
      (Always.ofExcept _).bind fun ⟨tag, version⟩ =>
    (Always.query _).bind fun _ => (Always.query _).bind fun present => (Always.ofExcept _).bind fun _ =>
      (Always.query _).bind fun _ => ?_
  dsimp only
  split
  · exact (Always.write_pure (f := fun w => { w with
      tasks := queuePublicationReview repo.name (parseRepositoryAndImage name).2 version user.username
        ⟨repo.name, (parseRepositoryAndImage name).2, reference, parsed, body⟩ w.tasks }) (fun _ => rfl) fun _ =>
          rfl).bind
          fun _ => .done _
  · refine (Always.query _).bind fun existed => (writeFile_always env _ _).bind fun _ =>
      (Always.attempt (putDockerManifest_always env
      (manifestWrite repo.name (parseRepositoryAndImage name).2 body parsed parsed.digest parsed.mediaType) tag
        user.username)).bind
      fun r => ?_
    cases r with
    | ok _ => exact .done _
    | error e =>
      dsimp only
      split
      · exact (removeFile_always env _).bind fun _ => .throw _
      · exact .throw _

theorem checkBlobs_safe (repository imageName : String) (digests : List String) (w : World) :
    Safe env.text (checkBlobs env repository imageName digests) (fun _ w => ∀ digest ∈ digests,
      had env.text w.origins (sanitizeDockerKey env.text repository imageName) (dockerDigest env.text digest) = true) w := by
  induction digests generalizing w with
  | nil => exact .done fun _ _ => by simp
  | cons digest digests ih =>
    unfold checkBlobs
    refine (Always.query _ w).bind fun recorded w _ => (Always.query _ w).bind fun stored w _ =>
      (referencesBlob_safe env _ _ _ w).bind fun linked w hlinked => ?_
    refine .require_bind fun hall => ?_
    refine ((ih w).frame (fun _ _ => had_later) (hlinked hall.2.2)).mono fun _ w hhad d hd => ?_
    rcases List.mem_cons.1 hd with rfl | hd
    · exact hhad.2
    · exact hhad.1 d hd

theorem approveDockerPublicationReview_safe (task : ReviewTask) (m : ManifestWrite) (tag : String) (w : World)
    (hblobs : ∀ digest ∈ m.blobDigests, had env.text w.origins (sanitizeDockerKey env.text m.repository m.imageName)
      (dockerDigest env.text digest) = true) :
    Safe env.text (write (approveDockerPublicationReview env task m tag)) (fun _ _ => True) w := by
  refine .tell fun t t' hle hright _ h => ?_
  obtain ⟨found, -, h⟩ := bind_ok.1 h
  obtain ⟨-, h⟩ := require_bind_ok.1 h
  obtain ⟨⟨write, tag'⟩, hwrite, h⟩ := bind_ok.1 h
  obtain ⟨-, h⟩ := require_bind_ok.1 h
  obtain ⟨-, -, h⟩ := bind_ok.1 h
  obtain ⟨-, -, h⟩ := bind_ok.1 h
  obtain ⟨db, htx, h⟩ := bind_ok.1 h
  cases h
  refine ⟨fun b hb => ?_, .refl t, trivial⟩
  replace hb : b ∈ db.imageBlobs := hb
  rw [putDockerManifestTx_blobs htx] at hb
  refine linkBlobs_right env hwrite hright List.suffix_rfl (fun d hd => ?_) b hb
  obtain ⟨digest, hdigest, rfl⟩ := List.mem_map.1 (List.mem_of_mem_filter hd)
  exact had_later hle (hblobs digest hdigest)

theorem approvePublicationReview_always (task : Nat) : Always env.text (approvePublicationReview env task) := by
  refine (Always.query _).bind fun ⟨t, p⟩ => (Always.ofExcept _).bind fun ⟨tag, version⟩ =>
    (Always.query _).bind fun _ w => ?_
  refine (checkBlobs_safe env p.repository p.imageName (referencedBlobDigests p.parsed) w).bind fun _ w hhad => ?_
  -- what was linked once stays a right link
  have hstays : ∀ w w', Later w w' → (∀ digest ∈ referencedBlobDigests p.parsed, had env.text w.origins
      (sanitizeDockerKey env.text p.repository p.imageName) (dockerDigest env.text digest) = true) →
      ∀ digest ∈ referencedBlobDigests p.parsed, had env.text w'.origins
        (sanitizeDockerKey env.text p.repository p.imageName) (dockerDigest env.text digest) = true :=
    fun w w' hle h digest hd => had_later hle (h digest hd)
  refine ((Always.query _ w).frame hstays hhad).bind fun existed w hhad => ?_
  refine ((writeFile_always env _ _ w).frame hstays hhad.2).bind fun _ w hhad => ?_
  have happrove : Safe env.text (Proc.attempt (write (approveDockerPublicationReview env t
      (manifestWrite p.repository p.imageName p.rawJSON p.parsed p.parsed.digest p.parsed.mediaType) tag)))
          (fun _ _ => True) w :=
    Proc.Keeps.attempt (Proc.Keeps.mono (fun _ _ _ _ _ => trivial) (approveDockerPublicationReview_safe env t _ tag w hhad.2))
  refine happrove.bind fun r w _ => ?_
  cases r with
  | ok _ => exact Always.done _ w
  | error e =>
    dsimp only
    split
    · exact (removeFile_always env _).bind (fun _ => .throw _) w
    · exact Always.throw _ w

/-! #### Deleting -/

theorem deleteDockerManifest_blobs {text : Text} {db db' : DockerDB} {repository imageName digest : String}
    (h : deleteDockerManifest text db repository imageName digest = .ok db') :
      ∀ b ∈ db'.imageBlobs, b ∈ db.imageBlobs := by
  obtain ⟨-, -, h⟩ := bind_ok.1 h
  obtain ⟨-, -, h⟩ := bind_ok.1 h
  obtain ⟨-, h⟩ := require_bind_ok.1 h
  cases h
  exact fun b hb => List.mem_of_mem_filter hb

theorem deleteDockerTag_blobs {text : Text} {db db' : DockerDB} {repository imageName tag : String}
    (h : deleteDockerTag text db repository imageName tag = .ok db') : ∀ b ∈ db'.imageBlobs, b ∈ db.imageBlobs := by
  obtain ⟨-, -, h⟩ := bind_ok.1 h
  obtain ⟨-, -, h⟩ := bind_ok.1 h
  obtain ⟨-, -, h⟩ := bind_ok.1 h
  obtain ⟨-, h⟩ := require_bind_ok.1 h
  cases h
  exact fun b hb => hb

theorem deleteDockerBlob_blobs {text : Text} {db db' : DockerDB} {repository digest : String}
    (h : deleteDockerBlob text db repository digest = .ok db') : ∀ b ∈ db'.imageBlobs, b ∈ db.imageBlobs := by
  obtain ⟨-, -, h⟩ := bind_ok.1 h
  cases h
  exact fun b hb => List.mem_of_mem_filter hb

theorem deleteDockerImage_blobs {text : Text} {db db' : DockerDB} {repository imageName : String}
    (h : deleteDockerImage text db repository imageName = .ok db') : ∀ b ∈ db'.imageBlobs, b ∈ db.imageBlobs := by
  obtain ⟨-, -, h⟩ := bind_ok.1 h
  obtain ⟨-, -, h⟩ := bind_ok.1 h
  cases h
  exact fun b hb => List.mem_of_mem_filter hb

theorem handleDeleteManifest_always (cred : Credentials) (path name reference : String) :
    Always env.text (handleDeleteManifest env cred path name reference) := by
  refine (authorized_always env cred name _).bind fun ⟨repo, user⟩ => ?_
  dsimp only
  split
  · exact (Always.write_with fun t db h => deleteDockerManifest_blobs h).bind fun _ =>
      (Always.attempt (removeFile_always env _)).bind fun _ => .done _
  · exact (Always.write_with fun t db h => deleteDockerTag_blobs h).bind fun _ => .done _

theorem handleDeleteBlob_always (cred : Credentials) (path name digest : String) :
    Always env.text (handleDeleteBlob env cred path name digest) :=
  (authorized_always env cred name _).bind fun _ => (Always.write_with fun _ _ h => deleteDockerBlob_blobs h).bind fun _ =>
    (removeFile_always env _).bind fun _ => .done _

theorem deleteImage_always (repository imageName : String) : Always env.text (deleteImage env repository imageName) := by
  unfold deleteImage permitted
  exact (Always.query _).bind fun _ => (Always.write_with fun _ _ h => deleteDockerImage_blobs h).bind fun _ => .done _

theorem deleteRepository_always (repository : String) : Always env.text (deleteRepository env repository) := by
  unfold deleteRepository permitted
  refine (Always.query _).bind fun _ => Always.bind (.write fun t t' h => ?_) fun _ => .done _
  cases h
  exact ⟨fun b hb => List.mem_of_mem_filter hb, rfl⟩

/-! ### Runs -/

/-- The image and the digest of a request that got a file of the store. -/
def localBlob : Request → Served → Option (Key × String)
  | .getBlob _ name digest _, .localBlob _ =>
    some (sanitizeDockerKey env.text (parseRepositoryAndImage name).1 (parseRepositoryAndImage name).2,
      dockerDigest env.text digest)
  | _, _ => none

theorem handle_safe (request : Request) (w : World) :
    Safe env.text (handle env request) (fun served w => ∀ image digest,
      localBlob env request served = some (image, digest) → had env.text w.origins image digest = true) w := by
  have hother : (∀ served, localBlob env request served = none) → Always env.text (handle env request) →
      Safe env.text (handle env request) (fun served w => ∀ image digest, localBlob env request served =
        some (image, digest) → had env.text w.origins image digest = true) w := by
    intro hnone hrun
    refine (hrun w).mono fun served w _ image digest h => ?_
    rw [hnone] at h
    cases h
  cases request with
  | getBlob cred name digest upstream =>
    refine (handleGetBlob_safe env cred name digest upstream w).mono fun served w hhad image d h => ?_
    cases served with
    | localBlob content =>
      cases h
      exact hhad content rfl
    | _ => cases h
  | tagsList cred name last n => exact hother (fun _ => rfl) (handleTagsList_always env cred name last n)
  | getManifest cred name reference upstream => exact hother (fun _ => rfl) (handleGetManifest_always env cred name reference
      upstream)
  | putManifest cred name reference body contentType =>
    exact hother (fun _ => rfl) (mutateImage_always env (handlePutManifest_always env cred name reference body contentType))
  | postUpload cred name q => exact hother (fun _ => rfl) (mutateImage_always env (handlePostUpload_always env cred name q))
  | patchUpload cred name uploadUUID body =>
    exact hother (fun _ => rfl) (mutateImage_always env (handlePatchUpload_always env cred name uploadUUID body))
  | putUpload cred name uploadUUID digest body =>
    exact hother (fun _ => rfl) (mutateImage_always env (handlePutUpload_always env cred name uploadUUID digest body))
  | getUploadStatus cred name uploadUUID =>
    exact hother (fun _ => rfl) (mutateImage_always env (handleGetUploadStatus_always env cred name uploadUUID))
  | deleteUpload cred name uploadUUID =>
    exact hother (fun _ => rfl) (mutateImage_always env (handleDeleteUpload_always env cred name uploadUUID))
  | deleteManifest cred path name reference =>
    exact hother (fun _ => rfl) (mutateImage_always env (handleDeleteManifest_always env cred path name reference))
  | deleteBlob cred path name digest =>
    exact hother (fun _ => rfl) (mutateImage_always env (handleDeleteBlob_always env cred path name digest))
  | approve task => exact hother (fun _ => rfl) (approvePublicationReview_always env task)
  | deleteImage repository imageName => exact hother (fun _ => rfl) (deleteImage_always env repository imageName)
  | deleteRepository repository => exact hother (fun _ => rfl) (deleteRepository_always env repository)
  | administer f =>
    exact hother (fun _ => rfl) ((Always.write_pure
      (f := fun w => { w with db := { w.db with toAccounts := f w.db.toAccounts } })
      (fun _ => rfl) fun _ => rfl).bind fun _ => .done _)

/-- What the requests that are done got from the store. -/
def blobsServed (sys : System Request World Step DockerError Served) : List (Key × String) :=
  sys.active.filterMap fun t => match t.2 with
    | .done (.ok served) => localBlob env t.1 served
    | _ => none

/-- Whatever the requests and however they interleave: in a careful run, an image serves the blobs that came to it. -/
theorem blob_access {w : World} (hnew : w.db.imageBlobs = []) {sys : System Request World Step DockerError Served}
    (h : Reach (fun _ => false) (handle env) (System.Good fun step w => careful step w = true) ⟨w, []⟩ sys) :
    ∀ b ∈ blobsServed env sys, had env.text sys.shared.origins b.1 b.2 = true := by
  have hkept := Reach.keeps Later (LinksRight env.text) (fun request r w => ∀ served, r = .ok served →
      ∀ image digest, localBlob env request served = some (image, digest) → had env.text w.origins image digest = true)
    Later.refl (fun _ _ _ => Later.trans) (fun _ _ _ _ hle hpost served hr image digest hl =>
      had_later hle (hpost served hr image digest hl))
    (fun request w _ => handle_safe env request w) (fun b hb => absurd hb (by rw [hnew]; simp)) h
  rintro ⟨image, digest⟩ hb
  obtain ⟨⟨request, p⟩, ht, hserved⟩ := List.mem_filterMap.1 hb
  have hpost := hkept.2 _ ht
  cases p with
  | step label act next => cases hserved
  | done r =>
    cases r with
    | error e => cases hserved
    | ok served => exact hpost served rfl image digest hserved

end Handlers

/-! #### A private image and a public one -/

def bob : Credentials := ⟨⟨"bob", ["manager"]⟩, none, true⟩

/-- A publisher of `app/open` who cannot read `app/secret`. -/
def eve : Credentials := ⟨⟨"eve", []⟩, none, true⟩

def twoImages : DockerDB where
  images := ⟨[⟨"app", "secret", "", true, true⟩, ⟨"app", "open", "", false, true⟩], by simp [DockerImage.key]⟩
  members := ⟨[⟨"app", "open", "u2", 1⟩], by simp⟩
  teamRole _ _ := none
  profile username := if username = "eve" then some "u2" else none
  locks := .empty
  captured := []
  tags := .empty
  manifests := .empty
  imageBlobs := []
  blobs := .empty

def layerEnv : Env := { appEnv with
  calculateDigest := fun content => if content = "layer" then "sha256:aa" else "sha256:bb"
  parseManifest := fun raw mediaType =>
    if raw = "manifest" then some ⟨"sha256:bb", mediaType, "", 1, ["sha256:aa"], false⟩ else none }

/-- A request that runs alone for `n` steps. -/
def alone (request : Request) (n : Nat) : List (Event Request) := .start request :: List.replicate n (.advance 0 false)

def uploadSecret : List (Event Request) := alone (.postUpload bob "app/secret" ⟨"", "", "sha256:aa", "layer", "1"⟩) 8

/-- Bob gets the layer that he has uploaded. -/
theorem blob_access_uploaded :
    ∃ sys, Reach (fun _ => false) (handle layerEnv) (System.Good fun step w => careful step w = true)
      ⟨⟨twoImages, [], [], [], []⟩, []⟩ sys ∧
      blobsServed layerEnv sys = [(("app", "secret"), "sha256:aa")] ∧ had asciiText sys.shared.origins ("app", "secret")
        "sha256:aa" = true := by
  have hrun : ((System.goodRun (fun _ => false) (handle layerEnv) careful ⟨⟨twoImages, [], [], [], []⟩, []⟩
      (uploadSecret ++ alone (.getBlob bob "app/secret" "sha256:aa" none) 5)).map (blobsServed layerEnv)) =
      some [(("app", "secret"), "sha256:aa")] := by decide +kernel
  obtain ⟨sys, hsys, hserved⟩ := Option.map_eq_some_iff.1 hrun
  have hreach := Reach.of_goodRun hsys
  exact ⟨sys, hreach, hserved, blob_access layerEnv rfl hreach (("app", "secret"), "sha256:aa") (by simp [hserved])⟩

/-- Eve pushes a manifest that lists the layer, and gets it without an upload or a mount. -/
theorem blob_leaked :
    ¬∀ (env : Env) (w : World), w.db.imageBlobs = [] → w.origins = [] → ∀ sys,
      Reach (fun _ => false) (handle env) (fun _ _ => True) ⟨w, []⟩ sys →
      ∀ b ∈ blobsServed env sys, had env.text sys.shared.origins b.1 b.2 = true := by
  intro hall
  have hrun : ((System.goodRun (fun _ => false) (handle layerEnv) (fun _ _ => true) ⟨⟨twoImages, [], [], [], []⟩, []⟩
      (uploadSecret ++ alone (.putManifest eve "app/open" "v1" "manifest" "manifest") 9 ++ alone
        (.getBlob eve "app/open" "sha256:aa" none) 5)).map
        fun sys => (blobsServed layerEnv sys, had asciiText sys.shared.origins ("app", "open") "sha256:aa")) =
      some ([(("app", "open"), "sha256:aa")], false) := by decide +kernel
  obtain ⟨sys, hsys, hserved⟩ := Option.map_eq_some_iff.1 hrun
  obtain ⟨hblobs, hnot⟩ := Prod.mk.inj hserved
  have hreach : Reach (fun _ => false) (handle layerEnv) (fun _ _ => True) _ sys :=
    Relation.ReflTransGen.mono (fun _ _ ⟨e, _, he⟩ => ⟨e, trivial, he⟩) _ _ (Reach.of_goodRun hsys)
  have hhad := hall layerEnv ⟨twoImages, [], [], [], []⟩ rfl rfl sys hreach (("app", "open"), "sha256:aa")
    (by simp [hblobs])
  rw [show layerEnv.text = asciiText from rfl, hnot] at hhad
  cases hhad

end Renop.Docker
