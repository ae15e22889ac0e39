import Renop.CargoPublish
import Renop.DockerPush
import Renop.DockerRuns
import Renop.NpmCatalog
import Renop.NpmPublish

/-!
# Failed publications to npm and Docker

Both registries take a failed publication back, apart from the quota that was charged for it.
-/

namespace Renop.Publications

open Sql Interleave

/-- If the compensating deletes succeed, a failed publication leaves everything but the quota as it was; the quota is as it
was unless a reservation was committed. -/
theorem failed_publications_undone :
    (∀ (env : NpmService.Env) (repo : NpmService.Repo) (packageName : String) (req : NpmService.PublishRequest)
      (fault : NpmService.Step → Bool) (w : NpmService.World) (e : NpmService.Failure), fault .deleteTarball = false →
      ((NpmService.publish env repo packageName req).exec fault w).1 = .error e →
      NpmService.Undone (NpmService.Billed env repo packageName req fault w) w
        ((NpmService.publish env repo packageName req).exec fault w).2) ∧
    (∀ (env : DockerPush.Env) (req : DockerPush.PushRequest) (fault : DockerPush.Step → Bool) (w : DockerPush.World)
      (e : DockerPush.Failure), DockerPush.NoCollision env req w → fault .deleteManifest = false →
      ((DockerPush.handlePutManifest env req).exec fault w).1 = .error e →
      DockerPush.Undone (DockerPush.Billed env req fault w) w ((DockerPush.handlePutManifest env req).exec fault w).2) :=
  ⟨fun _ _ _ _ _ _ _ hdelete he => NpmService.publish_taken_back hdelete he,
    fun _ _ _ _ _ hcollision hdelete he => DockerPush.failed_push_undone hcollision hdelete he⟩

/-! ### Requests on fixed inputs -/

def noReviews : Review.ReviewDB := ⟨.empty, .empty, .empty, .empty⟩

def aliceLedger : Quota.QuotaDB :=
  ⟨fun _ => some ⟨"u1", false⟩, fun _ => true, fun _ => none, fun _ _ => none, []⟩

def npmLib : NpmService.Lib where
  equalFold _ _ := false
  manifest raw := some ⟨"p", raw, none, ""⟩
  canonical raw _ _ _ := some raw
  decode data := some ⟨data, data.utf8ByteSize, "", ""⟩
  validateTarball _ _ _ := .ok ()
  isSubPath _ := true

/-- Every text with a `v` is a version. -/
def npmEnv (quotaDefaults : Option Quota.Limits) : NpmService.Env where
  text := Npm.plainText
  semver := ⟨fun v => v.toList.head? = some 'v', fun _ _ => 0⟩
  lib := npmLib
  storagePath := "/srv"
  marshal _ _ _ _ _ := "payload"
  quotaText := ⟨id, id, some⟩
  quotaDefaults := quotaDefaults
  access := Cargo.nobody
  outside := Npm.everybody

def npmWorld : NpmService.World where
  catalog := Npm.newCatalog
  superTeamPrefix := ""
  reviews := noReviews
  quota := aliceLedger
  tarballs _ := none
  blocked _ := false
  failures := 0

def npmRequest : NpmService.PublishRequest where
  username := "alice"
  canWrite := true
  mayUpdate := false
  publishScope := true
  lifecycleScope := false
  slotFree := true
  freeDiskSpace := 2 ^ 30
  document := .ok {
    id := "p", revision := "", name := "p", description := "", distTags := .empty, versions := Npm.single ("1.0.0", "1.0.0")
    attachments := ⟨[⟨"p-1.0.0.tgz", "tar", 3⟩], by simp⟩ }
  now := 1
  expiresAt := 2
  reviewID := "r1"
  quotaID := "q1"
  userID := "u1"

def npmRepo : NpmService.Repo := ⟨"npm", .off⟩

/-- Only one call fails. -/
def npmFailing (step : NpmService.Step) : NpmService.Step → Bool := fun s => s = step

def dockerEnv : DockerPush.Env where
  docker := Docker.layerEnv
  descriptorSizes _ _ := (0, [5])
  marshal _ _ := "payload"
  reviewFilePath _ _ _ := "review-manifests/open.json"
  quotaText := ⟨id, id, some⟩
  quotaDefaults := none
  access := Cargo.nobody

def dockerWorld : DockerPush.World := ⟨⟨Docker.twoImages, [], [], [], []⟩, noReviews, aliceLedger, 0⟩

def dockerRequest : DockerPush.PushRequest where
  cred := Docker.eve
  name := "app/open"
  reference := "v1"
  contentType := ""
  body := .ok "manifest"
  now := 1
  expiresAt := 2
  reviewID := "r1"
  quotaID := "q1"
  userID := "u2"

def dockerFailing (step : DockerPush.Step) : DockerPush.Step → Bool := fun s => s = step

/-- Publications that are free of charge are undone when the tables refuse them. -/
theorem failed_publications_undone_free :
    ((NpmService.publish (npmEnv none) npmRepo "p" npmRequest).exec (npmFailing .record) npmWorld).1 =
        .error (.response 500 "metadata failure" "failed to record npm package metadata") ∧
      ((NpmService.publish (npmEnv none) npmRepo "p" npmRequest).exec (npmFailing .record) npmWorld).2.tarballs =
        npmWorld.tarballs ∧
      ((DockerPush.handlePutManifest dockerEnv dockerRequest).exec (dockerFailing .record) dockerWorld).1 =
        .error (.respond 500 "UNSUPPORTED" "failed to record manifest") ∧
      ((DockerPush.handlePutManifest dockerEnv dockerRequest).exec (dockerFailing .record) dockerWorld).2.docker.db =
        dockerWorld.docker.db := by
  have hnpm : ((NpmService.publish (npmEnv none) npmRepo "p" npmRequest).exec (npmFailing .record) npmWorld).1 =
      .error (.response 500 "metadata failure" "failed to record npm package metadata") := by decide +kernel
  have hdocker : ((DockerPush.handlePutManifest dockerEnv dockerRequest).exec (dockerFailing .record) dockerWorld).1 =
      .error (.respond 500 "UNSUPPORTED" "failed to record manifest") := by decide +kernel
  have hcollision : DockerPush.NoCollision dockerEnv dockerRequest dockerWorld := fun path raw body hfile => by cases hfile
  exact ⟨hnpm, (failed_publications_undone.1 _ _ _ _ _ _ _ (by decide) hnpm).tarballs, hdocker,
    (failed_publications_undone.2 _ _ _ _ _ hcollision (by decide) hdocker).db⟩

/-- The tarball cannot be stored, and the publication counts all the same. -/
theorem charged_publication_not_undone :
    ((NpmService.publish (npmEnv (some Cargo.lifetimeQuota)) npmRepo "p" npmRequest).exec (npmFailing .commitTarball)
      npmWorld).1 =
        .error (.response 500 "storage failure" "failed to store npm tarball") ∧
      npmFailing .commitTarball .deleteTarball = false ∧
      ((NpmService.publish (npmEnv (some Cargo.lifetimeQuota)) npmRepo "p" npmRequest).exec
        (npmFailing .commitTarball) npmWorld).2.quota.usage ≠ npmWorld.quota.usage := by
  refine ⟨by decide +kernel, by decide, fun h => ?_⟩
  have husage : ((NpmService.publish (npmEnv (some Cargo.lifetimeQuota)) npmRepo "p" npmRequest).exec
      (npmFailing .commitTarball) npmWorld).2.quota.usage ⟨.user, "u1"⟩ 0 = some ⟨1, 3, 1⟩ := by decide +kernel
  rw [h] at husage
  exact absurd husage (by decide)

end Renop.Publications
