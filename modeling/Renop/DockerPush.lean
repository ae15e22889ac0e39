import Renop.DockerHandlers
import Renop.PublicationQuota

/-!
# Pushing a manifest

`HandlePutManifest` with its quota and its review, as a program over the tables and files of the handlers, the review
tables and the quota ledger. A step is one call of the store or of the database, which takes effect as a whole or fails.

A push that fails takes the manifest back if it was not there before, but not the quota (`failed_push_undone`).
-/

namespace Renop.DockerPush

open Sql Cargo Interleave Docker

/-! ### Requests -/

structure PushRequest where
  cred : Credentials
  name : String
  reference : String
  contentType : String
  /-- `readManifestRequest`; the error says whether the body is too large. -/
  body : Except Bool String
  now : Int
  /-- When the quota reservation expires. -/
  expiresAt : Int
  /-- New ids for a review, a quota reservation and a profile. -/
  reviewID : String
  quotaID : String
  userID : String

structure Env where
  docker : Docker.Env
  /-- `ConfigSize` and the sizes of `Layers` in a parsed manifest, by body and content type. -/
  descriptorSizes : String → String → Int64 × List Int64
  /-- `json.Marshal` of a review payload, with the time of the request. -/
  marshal : Payload → Int → String
  /-- `dockerReviewFilePath` -/
  reviewFilePath : (repository imageName reference : String) → String
  quotaText : Quota.Text
  /-- The default limits, if the quota is enabled. -/
  quotaDefaults : Option Quota.Limits
  access : Review.Access

structure World where
  /-- The tables and the files; its reviews are those below. -/
  docker : Docker.World
  reviews : Review.ReviewDB
  quota : Quota.QuotaDB
  /-- `FailuresCount` -/
  failures : Nat

inductive Failure
  /-- `RespondError` -/
  | respond (status : Nat) (code message : String)
  | docker (e : DockerError)
  | review (e : Review.ReviewError)
  | quota (e : Quota.QuotaError)
deriving DecidableEq, Repr

/-- The calls that a push makes. -/
inductive Step
  | authorize
  | ensureMutable
  | readImage
  | reserveQuota
  | commitQuota
  | releaseQuota
  | queueReview
  | openManifest
  | putManifest
  | record
  | deleteManifest
deriving DecidableEq, Repr

abbrev Request (α : Type) := Proc World Step Failure α

def lockError : Failure → Failure
  | .docker .resourceLocked => .respond 423 "DENIED" "Docker resource is locked"
  | _ => .respond 503 "UNSUPPORTED" "failed to inspect Docker resource"

/-- What a push answers when the tables refuse it. -/
def recordError : Failure → Failure
  | .docker .resourceLocked => lockError (.docker .resourceLocked)
  | .docker .imageNotFound => .respond 404 "NAME_UNKNOWN" "image must be created before push"
  | _ => .respond 500 "UNSUPPORTED" "failed to record manifest"

/-! ### The quota of a manifest -/

def addDescriptor (delta : Quota.Amounts) (size : Int64) : Option Quota.Amounts :=
  if size < 0 ∨ size > Int64.maxValue - delta.bytes then none
  else some { delta with files := delta.files + 1, bytes := delta.bytes + size }

def manifestPublicationQuotaDelta (manifest : ParsedManifest) (configSize : Int64) (layerSizes : List Int64) :
    Option Quota.Amounts :=
  let delta : Quota.Amounts := ⟨1, Int64.ofInt manifest.size, 1⟩
  if manifest.size ≤ 0 then none
  else if manifest.isIndex then some delta
  else
    (if manifest.configDigest ≠ "" then addDescriptor delta configSize else some delta).bind fun delta =>
      layerSizes.foldlM addDescriptor delta

theorem addDescriptor_publications {delta delta' : Quota.Amounts} {size : Int64}
    (h : addDescriptor delta size = some delta') :
    delta'.publications = delta.publications := by
  unfold addDescriptor at h
  split at h
  · cases h
  · cases h
    rfl

theorem foldlM_addDescriptor {sizes : List Int64} {delta delta' : Quota.Amounts}
    (h : sizes.foldlM addDescriptor delta = some delta') : delta'.publications = delta.publications := by
  induction sizes generalizing delta with
  | nil =>
    cases h
    rfl
  | cons size sizes ih =>
    rw [List.foldlM_cons] at h
    obtain ⟨delta₁, hadd, h⟩ := Option.bind_eq_some_iff.1 h
    exact (ih h).trans (addDescriptor_publications hadd)

theorem delta_publications {manifest : ParsedManifest} {configSize : Int64} {layerSizes : List Int64} {delta : Quota.Amounts}
    (h : manifestPublicationQuotaDelta manifest configSize layerSizes = some delta) : delta.publications = 1 := by
  unfold manifestPublicationQuotaDelta at h
  dsimp only at h
  split at h
  · cases h
  split at h
  · cases h
    rfl
  obtain ⟨delta₁, hconfig, h⟩ := Option.bind_eq_some_iff.1 h
  rw [foldlM_addDescriptor h]
  split at hconfig
  · exact addDescriptor_publications hconfig
  · cases hconfig
    rfl

/-! ### Pushing -/

section Push
variable (env : Env) (req : PushRequest)

def maxManifestSize : Nat := 4 * 2 ^ 20

/-- What a push has when it takes its quota. -/
structure Prepared where
  repo : Repository
  user : Docker.User
  imageName : String
  body : String
  parsed : ParsedManifest
  tag : String
  version : String
  superTeamPrefix : String
  delta : Quota.Amounts

/-- The body of the request, which is a manifest with the digest of the reference. -/
def parseRequest : Except Failure (String × ParsedManifest) := do
  let body ← req.body.mapError fun tooLarge =>
    if tooLarge then .respond 413 "MANIFEST_INVALID" "manifest exceeds the size limit"
    else .respond 400 "MANIFEST_INVALID" "failed to read manifest"
  require (body ≠ "") (.respond 400 "MANIFEST_INVALID" "empty manifest")
  require (body.utf8ByteSize ≤ maxManifestSize) (.respond 413 "MANIFEST_INVALID" "manifest exceeds the size limit")
  -- a response of status 400 with the text of the error
  let parsed ← orError (env.docker.parseManifest body req.contentType) (.docker .manifestInvalid)
  require (Storage.hasPrefix req.reference "sha256:" = true → req.reference = parsed.digest)
    (.respond 400 "DIGEST_INVALID" "provided digest does not match manifest content")
  pure (body, parsed)

/-- Everything before the quota is taken. -/
def preparePush : Request Prepared := do
  Proc.ofExcept (require (req.name ≠ "" ∧ req.reference ≠ "") (.respond 400 "MANIFEST_INVALID" "invalid parameters"))
  let (repoName, imageName) := parseRepositoryAndImage req.name
  let repo ← Proc.ofExcept (orError (env.docker.getRepo repoName) (.respond 404 "NAME_UNKNOWN" "repository not found"))
  let user ← .ask .authorize (.docker .denied) fun w =>
    (authenticateAndAuthorize env.docker req.cred repo req.name .push w.docker).mapError .docker
  let (body, parsed) ← Proc.ofExcept (parseRequest env req)
  let (tag, version) ← Proc.ofExcept (orError (normalizeManifestReference env.docker req.reference parsed.digest)
    (.respond 400 "TAG_INVALID" "invalid manifest reference"))
  .ask .ensureMutable (lockError (.docker .unavailable)) fun w =>
    (ensureDockerManifestMutable env.docker.text w.docker.db repo.name imageName parsed.digest tag).mapError fun e =>
      lockError (.docker e)
  let image ← .ask .readImage (.respond 503 "UNSUPPORTED" "database unavailable") fun w =>
    orError (w.docker.db.images.find? (sanitizeDockerKey env.docker.text repo.name imageName))
      (.respond 404 "NAME_UNKNOWN" "image must be created before push")
  let (configSize, layerSizes) := env.descriptorSizes body req.contentType
  let delta ← Proc.ofExcept (orError (manifestPublicationQuotaDelta parsed configSize layerSizes)
    (.respond 400 "MANIFEST_INVALID" "invalid manifest descriptor sizes"))
  pure { repo, user, imageName, body, parsed, tag, version, superTeamPrefix := image.superTeamPrefix, delta }

def quotaConfig : PublicationQuota.Config := ⟨env.docker.text.toText, env.quotaText, env.quotaDefaults⟩

def ledger : PublicationQuota.Port World Step Failure where
  get w := w.quota
  set quota w := { w with quota }
  get_set _ _ := rfl
  set_get _ := rfl
  set_set _ _ _ := rfl
  failed w := { w with failures := w.failures + 1 }
  reserve := .reserveQuota
  commit := .commitQuota
  release := .releaseQuota
  error := .quota

def charge (p : Prepared) : PublicationQuota.Charge where
  username := p.user.username
  superTeamPrefix := p.superTeamPrefix
  delta := p.delta
  now := req.now
  expiresAt := req.expiresAt
  userID := req.userID
  quotaID := req.quotaID

/-- There is nothing to take back yet. -/
def takeQuota (p : Prepared) : Request Unit :=
  PublicationQuota.takeQuota (quotaConfig env) (charge req p) ledger (pure ())
    (fun _ => .respond 429 "DENIED" "Docker publication quota exceeded")
    (.respond 503 "UNSUPPORTED" "Docker publication quota is unavailable")

def publicationRequest (p : Prepared) : Review.PublicationRequest where
  resourceType := some .dockerImage
  repository := p.repo.name
  resourceKey := p.imageName
  resourceName := p.imageName
  version := p.version
  requestedBy := p.user.username
  policy := some .everyVersion
  packageExists := true
  reviewTeamPrefix := ""
  targetTeamPrefix := ""
  files := [⟨"", env.reviewFilePath p.repo.name p.imageName req.reference, p.parsed.size, true, 0⟩]
  payload := env.marshal ⟨p.repo.name, p.imageName, req.reference, p.parsed, p.body⟩ req.now
  createdAt := req.now

/-- The transaction of `QueuePublicationReview`. -/
def queuePublicationReview (p : Prepared) : Request Review.PublicationResult :=
  .call .queueReview (.review .database) fun w =>
    ((Review.createOrUpdatePublicationReview env.docker.text.toText env.access w.reviews req.reviewID
      (publicationRequest env req p)).map fun (reviews, result) => (result, { w with reviews })).mapError .review

/-- The manifest is only kept in its review. -/
def queueManifest (p : Prepared) : Request Unit := do
  match ← (queuePublicationReview env req p).attempt with
  | .ok ⟨true, _⟩ => pure ()
  | .error (.review .fileLimit) => .throw (.respond 429 "UNSUPPORTED" "failed to create Docker publication review")
  | _ => .throw (.respond 500 "UNSUPPORTED" "failed to create Docker publication review")

/-- `PutManifest`, which hashes the body once more. -/
def putManifest (p : Prepared) (path : String) : Request Unit :=
  .tell .putManifest (.respond 500 "UNSUPPORTED" "failed to save manifest") fun w => do
    require (p.body.utf8ByteSize ≤ maxManifestSize ∧
      env.docker.calculateDigest p.body = env.docker.text.trimSpace p.parsed.digest)
      (.respond 500 "UNSUPPORTED" "failed to save manifest")
    pure { w with docker := w.docker.writeFile path p.body }

def deleteManifest (path : String) : Request Unit :=
  .tell .deleteManifest (.respond 500 "UNSUPPORTED" "failed to roll back manifest") fun w =>
    .ok { w with docker := w.docker.removeFile path }

def recordManifest (p : Prepared) : Request Unit :=
  .tell .record (.docker .unavailable) fun w =>
    ((putDockerManifest env.docker.text w.docker.db
      (manifestWrite p.repo.name p.imageName p.body p.parsed p.parsed.digest p.parsed.mediaType) p.tag p.user.username
        false).map
      fun db => { w with docker := { w.docker with db } }).mapError .docker

/-- The manifest is stored and recorded. -/
def storeManifest (p : Prepared) : Request Unit := do
  let path := manifestPath env.docker p.repo.name p.imageName p.parsed.digest
  let existing ← .ask .openManifest (.respond 500 "UNSUPPORTED" "failed to inspect installed manifest") fun w => do
    let existing ← (openManifest env.docker p.repo.name p.imageName p.parsed.digest w.docker).mapError fun _ =>
      .respond 500 "UNSUPPORTED" "failed to inspect installed manifest"
    require (∀ raw ∈ existing, raw.utf8ByteSize ≤ maxManifestSize)
      (.respond 500 "UNSUPPORTED" "failed to inspect installed manifest")
    pure existing
  putManifest env p path
  match ← (recordManifest env p).attempt with
  | .ok () => pure ()
  | .error e => do
    if existing = none then deleteManifest path
    .throw (recordError e)

def handlePutManifest : Request Unit := do
  let p ← preparePush env req
  takeQuota env req p
  if p.repo.reviewEveryVersion then queueManifest env req p else storeManifest env p

end Push

/-! ### The reads -/

section Reads
variable {env : Env} {req : PushRequest} {w : World} {allowed : Step → Bool → Prop}

theorem wp_preparePush {Q : Except Failure Prepared → World → Prop} (herror : ∀ e, Q (.error e) w)
    (hok : ∀ p, p.delta.publications = 1 → req.body = .ok p.body → Q (.ok p) w) :
      (preparePush env req).wp allowed Q w := by
  unfold preparePush
  simp only [Proc.bind_eq]
  refine Proc.wp_ofExcept_bind (fun e _ => herror e) fun _ _ => ?_
  refine Proc.wp_ofExcept_bind (fun e _ => herror e) fun repo _ => ?_
  refine Proc.wp_ask_bind herror fun user _ => ?_
  refine Proc.wp_ofExcept_bind (fun e _ => herror e) fun a hparse => ?_
  obtain ⟨body, parsed⟩ := a
  refine Proc.wp_ofExcept_bind (fun e _ => herror e) fun reference _ => ?_
  refine Proc.wp_ask_bind herror fun _ _ => ?_
  refine Proc.wp_ask_bind herror fun image _ => ?_
  refine Proc.wp_ofExcept_bind (fun e _ => herror e) fun delta hdelta => ?_
  refine hok _ (delta_publications (orError_ok.1 hdelta)) ?_
  unfold parseRequest at hparse
  obtain ⟨body', hbody, h⟩ := bind_ok.1 hparse
  obtain ⟨-, h⟩ := require_bind_ok.1 h
  obtain ⟨-, h⟩ := require_bind_ok.1 h
  obtain ⟨_, -, h⟩ := bind_ok.1 h
  obtain ⟨-, h⟩ := require_bind_ok.1 h
  cases h
  exact mapError_ok.1 hbody

/-- The checks leave the state alone. -/
def Checked (req : PushRequest) (w : World) (r : Except Failure Prepared) (w' : World) : Prop :=
  w' = w ∧ ∀ p, r = .ok p → p.delta.publications = 1 ∧ req.body = .ok p.body

theorem exec_preparePush (fault : Step → Bool) (w : World) :
    Checked req w ((preparePush env req).exec fault w).1 ((preparePush env req).exec fault w).2 := by
  refine (Proc.wp_exec (Q := Checked req w)).1 (wp_preparePush (fun e => ?_) fun p hone hbody => ?_)
  · exact ⟨rfl, fun p h => by cases h⟩
  · refine ⟨rfl, fun q hq => ?_⟩
    cases hq
    exact ⟨hone, hbody⟩

end Reads

/-! ### Undoing -/

section Undo
variable {env : Env} {req : PushRequest} {fault : Step → Bool} {w : World}

/-- The tables, the files and the ledger are as before. -/
structure Untouched (w w' : World) : Prop where
  db : w'.docker.db = w.docker.db
  files : ∀ path, w'.docker.file path = w.docker.file path
  quota : w'.quota = w.quota

theorem Untouched.refl (w : World) : Untouched w w := ⟨rfl, fun _ => rfl, rfl⟩

section Wp
variable {allowed : Step → Bool → Prop}

theorem wp_queueManifest {p : Prepared} :
    (queueManifest env req p).wp allowed (fun r w' => ∀ e, r = .error e → Untouched w w') w := by
  unfold queueManifest queuePublicationReview
  simp only [Proc.bind_eq]
  refine Proc.wp_attempt_bind (Proc.wp_call (fun _ _ _ => .refl w) (fun result w' hcall => ?_) fun e _ => ?_)
  · obtain ⟨⟨reviews, ⟨pending, id⟩⟩, -, heq⟩ := map_ok.1 (mapError_ok.1 hcall)
    cases heq
    cases pending with
    | false => exact fun _ _ => ⟨rfl, fun _ => rfl, rfl⟩
    | true => exact fun _ h => by cases h
  · split
    · next h => cases h
    · exact fun _ _ => .refl w
    · exact fun _ _ => .refl w

/-- What is stored under the digest of the body is the body. -/
def NoCollision (env : Env) (req : PushRequest) (w : World) : Prop :=
  ∀ path raw body, w.docker.file path = some raw → req.body = .ok body →
    env.docker.calculateDigest raw = env.docker.calculateDigest body → raw = body

theorem openManifest_some {repository imageName digest raw : String} {w : Docker.World} {env : Docker.Env}
    (h : openManifest env repository imageName digest w = .ok (some raw)) :
    w.file (manifestPath env repository imageName digest) = some raw ∧ env.calculateDigest raw = env.text.trimSpace
      digest := by
  unfold openManifest at h
  split at h
  · cases h
  · rename_i content hfile
    obtain ⟨hdigest, h⟩ := require_bind_ok.1 h
    cases h
    exact ⟨hfile, hdigest⟩

theorem openManifest_none {repository imageName digest : String} {w : Docker.World} {env : Docker.Env}
    (h : openManifest env repository imageName digest w = .ok none) :
    w.file (manifestPath env repository imageName digest) = none := by
  unfold openManifest at h
  split at h
  · next hfile => exact hfile
  · obtain ⟨-, h⟩ := require_bind_ok.1 h
    cases h

theorem file_restored {existing : Option String} {path body : String} {w : Docker.World} (hfile : w.file path = existing)
    (hsame : ∀ raw ∈ existing, raw = body) (q : String) :
    (if existing = none then (w.writeFile path body).removeFile path else w.writeFile path body).file q = w.file q := by
  cases existing with
  | none =>
    rw [if_pos rfl, World.file_removeFile, World.file_writeFile]
    split
    · next hq => rw [hq, hfile]
    · rfl
  | some raw =>
    rw [if_neg (by simp), World.file_writeFile]
    split
    · next hq => rw [hq, hfile, hsame raw rfl]
    · rfl

attribute [local irreducible] manifestPath Index.pathClean

theorem wp_storeManifest (hcollision : NoCollision env req w) {p : Prepared} (hbody : req.body = .ok p.body)
    (hdelete : ¬ allowed .deleteManifest true) :
    (storeManifest env p).wp allowed (fun r w' => ∀ e, r = .error e → Untouched w w') w := by
  unfold storeManifest
  simp only [Proc.bind_eq]
  refine Proc.wp_ask_bind (fun _ _ _ => .refl w) fun existing hexisting => ?_
  refine Proc.wp_tell_bind (fun _ _ _ => .refl w) (fun w₁ hput => ?_) fun _ _ _ _ => .refl w
  obtain ⟨existing', hopen, h⟩ := bind_ok.1 hexisting
  obtain ⟨-, h⟩ := require_bind_ok.1 h
  cases h
  obtain ⟨⟨-, hdigest⟩, h⟩ := require_bind_ok.1 hput
  cases h
  have hsame : ∀ raw ∈ existing, raw = p.body := by
    rintro raw rfl
    obtain ⟨hfile, hraw⟩ := openManifest_some (mapError_ok.1 hopen)
    exact hcollision _ raw _ hfile hbody (hraw.trans hdigest.symm)
  have hfile : w.docker.file (manifestPath env.docker p.repo.name p.imageName p.parsed.digest) = existing := by
    cases existing with
    | none => exact openManifest_none (mapError_ok.1 hopen)
    | some raw => exact (openManifest_some (mapError_ok.1 hopen)).1
  have hrestored := file_restored hfile hsame
  -- whatever refuses the record, the manifest goes if it was not there
  have hundo : ∀ e, ((if existing = none then
      (deleteManifest (manifestPath env.docker p.repo.name p.imageName p.parsed.digest)).bind fun _ => .throw (recordError e)
      else .throw (recordError e) : Request Unit)).wp allowed (fun r w' => ∀ e, r = .error e → Untouched w w')
      { w with docker := w.docker.writeFile (manifestPath env.docker p.repo.name p.imageName p.parsed.digest) p.body } := by
    intro e
    split
    · next hnone =>
      simp only [hnone, if_true] at hrestored
      refine Proc.wp_tell_bind (fun h => absurd h hdelete) (fun w₂ h => ?_) fun _ h => by cases h
      cases h
      exact fun _ _ => ⟨rfl, hrestored, rfl⟩
    · next hsome =>
      simp only [hsome, if_false] at hrestored
      exact fun _ _ => ⟨rfl, hrestored, rfl⟩
  refine Proc.wp_attempt_bind (Proc.wp_tell (fun _ => hundo _) (fun _ _ _ h => by cases h) fun e _ => hundo e)

end Wp

variable (env req fault w) in
/-- The push passed the checks and a reservation was committed for it. -/
def Billed : Prop :=
  ∃ p, ((preparePush env req).exec fault w).1 = .ok p ∧
    PublicationQuota.Charged (quotaConfig env) (charge req p) ledger fault w.quota

/-- What a failed push leaves behind. -/
structure Undone (billed : Prop) (w w' : World) : Prop where
  db : w'.docker.db = w.docker.db
  files : ∀ path, w'.docker.file path = w.docker.file path
  usage : w'.quota.usage = w.quota.usage ↔ ¬ billed

/-- If the clean-up succeeds, a failed push leaves the tables and the files as they were. The usage is as before unless the
push was billed. -/
theorem failed_push_undone (hcollision : NoCollision env req w) (hdelete : fault .deleteManifest = false) {e : Failure}
    (he : ((handlePutManifest env req).exec fault w).1 = .error e) :
    Undone (Billed env req fault w) w ((handlePutManifest env req).exec fault w).2 := by
  obtain ⟨hstate, hof⟩ := @exec_preparePush env req fault w
  unfold handlePutManifest at he ⊢
  unfold Billed
  rw [Proc.bind_eq, Proc.exec_bind] at he ⊢
  generalize (preparePush env req).exec fault w = r at hstate hof he ⊢
  obtain ⟨r, w'⟩ := r
  obtain rfl : w' = w := hstate
  cases r with
  | error e => exact ⟨rfl, fun _ => rfl, iff_of_true rfl (by simp)⟩
  | ok p =>
    obtain ⟨hone, hbody⟩ := hof p rfl
    have hbilled : (∃ q, (Except.ok p : Except Failure Prepared) = .ok q ∧
        PublicationQuota.Charged (quotaConfig env) (charge req q) ledger fault w'.quota) ↔
        PublicationQuota.Charged (quotaConfig env) (charge req p) ledger fault w'.quota := by simp
    rw [hbilled]
    -- what is stored after the quota was taken is taken back
    have hstored : ∀ quota, ∀ e, ((if p.repo.reviewEveryVersion then queueManifest env req p else storeManifest env p :
        Request Unit).exec fault { w' with quota }).1 = .error e → Untouched { w' with quota }
          ((if p.repo.reviewEveryVersion then queueManifest env req p else storeManifest env p :
            Request Unit).exec fault { w' with quota }).2 := by
      intro quota
      split
      · exact (Proc.wp_exec (Q := fun r s => ∀ e, r = .error e → Untouched _ s)).1 wp_queueManifest
      · refine (Proc.wp_exec (Q := fun r s => ∀ e, r = .error e → Untouched _ s)).1
          (wp_storeManifest ?_ hbody (by simp [hdelete]))
        exact hcollision
    simp only [Proc.bind_eq, Proc.exec_bind] at he ⊢
    have htaken : PublicationQuota.Taken (quotaConfig env) (charge req p) ledger fault id w'
        ((takeQuota env req p).exec fault w') :=
      PublicationQuota.exec_takeQuota hone (fun _ => rfl) (fun _ _ => rfl) w'
    generalize (takeQuota env req p).exec fault w' = r at he htaken ⊢
    cases htaken with
    | @charged quota hcharged husage =>
      obtain ⟨hdb, hfiles, hquota⟩ := hstored quota e he
      exact ⟨hdb, hfiles, iff_of_false (hquota ▸ husage) (not_not_intro hcharged)⟩
    | @free quota hcharged husage =>
      obtain ⟨hdb, hfiles, hquota⟩ := hstored quota e he
      exact ⟨hdb, hfiles, iff_of_true (hquota ▸ husage) hcharged⟩
    | refused hcharged husage hs' =>
      rcases hs' with rfl | rfl
      · exact ⟨rfl, fun _ => rfl, iff_of_true husage hcharged⟩
      · exact ⟨rfl, fun _ => rfl, iff_of_true husage hcharged⟩

end Undo

end Renop.DockerPush
