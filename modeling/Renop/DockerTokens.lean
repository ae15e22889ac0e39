import Renop.DockerIsolation

/-!
# What a token may do

`HandleTokenAuth` issues a token with a list of names and actions, and an API token has scopes with targets
(`token.go`, `api_token.go`). Every request is checked against its own name and action, but a mount takes from a second image,
and a `DELETE` is told from the cancellation of an upload by the text of its path.
-/

namespace Renop.Docker

open Sql Interleave
open Renop.Locks (asciiText readLocked)
open Renop.SuperTeam (Text)
open Renop.Cargo (Key)

/-! ### Tokens -/

/-- `strings.SplitN(scope, ":", 3)`, if there are three parts. -/
def splitScope (scope : String) : Option (String × String × String) :=
  (cut [':'] scope.toList).bind fun (kind, rest) =>
    (cut [':'] rest).map fun (name, actions) => (String.ofList kind, String.ofList name, String.ofList actions)

section Issue
variable (env : Env) (w : World) (user : User) (credentialAllows : Action → String → Bool)

/-- What one action of a scope grants. -/
def grantedAction (repo : Option Repository) (repoName name action : String) : List String :=
  let canRead := (repo.map fun repo => canReadDocker env.text w.db user repo name).getD false
  let canWrite := (repo.map fun repo => canWriteDocker env.text w.db user repo name).getD false
  if action = "pull" then if credentialAllows .pull repoName && canRead then ["pull"] else []
  else if action = "push" then
    (if credentialAllows .push repoName && canWrite then ["push"] else []) ++
      if credentialAllows .delete repoName && canWrite then ["delete"] else []
  else if action = "delete" then if credentialAllows .delete repoName && canWrite then ["delete"] else []
  else []

def accessEntry (scope : String) : Option (String × List String) :=
  match splitScope scope with
  | some ("repository", name, actions) =>
    let repoName := (parseRepositoryAndImage name).1
    let actionsReq := (actions.toList.splitOn ',').map fun a => env.text.trimSpace (String.ofList a)
    some (name, (actionsReq.flatMap (grantedAction env w user credentialAllows (env.getRepo repoName) repoName name)).dedup)
  | _ => none

/-- `HandleTokenAuth`, for a user that is known and the scopes that are asked for. -/
def handleTokenAuth (rawScopes : List String) : Claims :=
    ⟨user.username, rawScopes.filterMap (accessEntry env w user credentialAllows)⟩

end Issue

/-- `apiTokenAuthorizationAllows`; a scope without targets is for every repository. -/
def apiTokenAuthorizationAllows (scopes : List Action) (targets : List (Action × List String)) (scope : Action)
    (target : String) : Bool :=
  scope ∈ scopes && match targets.lookup scope with
    | none => true
    | some restricted => target ≠ "" && target ∈ restricted

/-- What a request is made with. -/
inductive Credential
  | token (claims : Claims)
  | apiToken (scopes : List Action) (targets : List (Action × List String))

/-- The action is in the entry of the name, or the scope and the target of the credential. -/
def Credential.grants (c : Credential) (name : String) (action : Action) : Bool :=
  match c with
  | token claims => claims.access.any fun entry => entry.1 = name && action.name ∈ entry.2
  | apiToken scopes targets => apiTokenAuthorizationAllows scopes targets action (parseRepositoryAndImage name).1

def Credential.credentials (c : Credential) (user : User) (repository : String) (action : Action) : Credentials :=
  match c with
  | token claims => ⟨user, some (some claims), true⟩
  | apiToken scopes targets => ⟨user, none, apiTokenAuthorizationAllows scopes targets action repository⟩

/-- A token comes from `HandleTokenAuth`. -/
def Credential.Issued (env : Env) : Credential → Prop
  | token claims => ∃ w user allows scopes, claims = handleTokenAuth env w user allows scopes
  | apiToken .. => True

/-- The name in the path of a request. -/
def Request.name : Request → Option String
  | .tagsList _ name _ _ | .getManifest _ name _ _ | .getBlob _ name _ _ => some name
  | .putManifest _ name _ _ _ | .postUpload _ name _ | .patchUpload _ name _ _ | .putUpload _ name _ _ _ => some name
  | .getUploadStatus _ name _ | .deleteUpload _ name _ | .deleteManifest _ _ name _ | .deleteBlob _ _ name _ => some name
  | .approve _ | .deleteImage .. | .deleteRepository _ | .administer _ => none

/-- The action that a request is checked for. -/
def Request.action : Request → Action
  | .tagsList .. | .getManifest .. | .getBlob .. => .pull
  | .deleteManifest _ path _ _ | .deleteBlob _ path _ _ => deleteAction path
  | _ => .push

/-- The action that it needs. -/
def Request.needs : Request → Action
  | .tagsList .. | .getManifest .. | .getBlob .. => .pull
  | .deleteManifest .. | .deleteBlob .. => .delete
  | _ => .push

/-- A request with this credential. -/
def Request.MadeWith (c : Credential) (req : Request) : Prop :=
  ∃ user name, req.name = some name ∧ req.cred = c.credentials user (parseRepositoryAndImage name).1 req.action

section Issued
variable {env : Env} {c : Credential}

theorem grantedAction_name {w : World} {user : User} {allows : Action → String → Bool} {repo : Option Repository}
    {repoName name action a : String}
    (h : a ∈ grantedAction env w user allows repo repoName name action) : a ≠ "*" ∧ repo.isSome = true := by
  have hrepo : ∀ {f : Repository → Bool} {b : Bool}, (b && (repo.map f).getD false) = true → repo.isSome = true := by
    intro f b hb
    cases repo with
    | none => simp at hb
    | some _ => rfl
  unfold grantedAction at h
  dsimp only at h
  split at h
  · split at h
    · rename_i hok
      rw [List.mem_singleton.1 h]
      exact ⟨by decide, hrepo hok⟩
    · cases h
  · split at h
    · rcases List.mem_append.1 h with h | h <;> split at h
      · rename_i hok
        rw [List.mem_singleton.1 h]
        exact ⟨by decide, hrepo hok⟩
      · cases h
      · rename_i hok
        rw [List.mem_singleton.1 h]
        exact ⟨by decide, hrepo hok⟩
      · cases h
    · split at h
      · split at h
        · rename_i hok
          rw [List.mem_singleton.1 h]
          exact ⟨by decide, hrepo hok⟩
        · cases h
      · cases h

theorem issued_entry {claims : Claims} (hissued : (Credential.token claims).Issued env) (hstar : env.repos "*" = none)
    {entry : String × List String} (hentry : entry ∈ claims.access) {a : String} (ha : a ∈ entry.2) :
      a ≠ "*" ∧ entry.1 ≠ "*" := by
  obtain ⟨w, user, allows, scopes, rfl⟩ := hissued
  obtain ⟨scope, -, hscope⟩ := List.mem_filterMap.1 hentry
  unfold accessEntry at hscope
  split at hscope
  · rename_i name actions _
    cases hscope
    obtain ⟨action, -, hgranted⟩ := List.mem_flatMap.1 (List.mem_dedup.1 ha)
    obtain ⟨hne, hrepo⟩ := grantedAction_name hgranted
    refine ⟨hne, fun hname => ?_⟩
    dsimp only at hname
    have hparse : (parseRepositoryAndImage "*").1 = "*" := by decide +kernel
    rw [hname, hparse] at hrepo
    simp [Env.getRepo, hstar] at hrepo
  · cases hscope

theorem authenticate_grants (hissued : c.Issued env) (hstar : env.repos "*" = none) {user user' : User} {repo : Repository}
    {name : String} {action : Action} {w : World}
    (h : authenticateAndAuthorize env (c.credentials user (parseRepositoryAndImage name).1 action) repo name action w =
      .ok user') :
    c.grants name action = true := by
  cases c with
  | token claims =>
    unfold authenticateAndAuthorize Credential.credentials at h
    dsimp only at h
    split at h
    · rename_i hok
      obtain ⟨hentry, -⟩ := Bool.and_eq_true_iff.1 hok
      obtain ⟨entry, hmem, hentry⟩ := List.any_eq_true.1 hentry
      obtain ⟨hname, haction⟩ := Bool.and_eq_true_iff.1 hentry
      obtain ⟨a, ha, haction⟩ := List.any_eq_true.1 haction
      obtain ⟨hne, hne'⟩ := issued_entry hissued hstar hmem ha
      simp only [Bool.or_eq_true, decide_eq_true_eq, hne, hne', or_false] at hname haction
      exact List.any_eq_true.2 ⟨entry, hmem, by simp [hname, ← haction, ha]⟩
    · cases h
  | apiToken scopes targets =>
    unfold authenticateAndAuthorize Credential.credentials at h
    dsimp only at h
    split at h
    · cases h
    · rename_i hscope
      exact Bool.not_eq_false _ ▸ hscope

end Issued

/-! ### What a request does -/

/-- One request of a session, with the states before and after it. -/
structure Exchange where
  before : World
  request : Request
  result : Except DockerError Served
  after : World

/-- Requests one after the other. -/
def session (env : Env) (fault : Step → Bool) : World → List Request → List Exchange
  | _, [] => []
  | w, req :: reqs =>
    let (r, w') := Proc.exec fault (handle env req) w
    ⟨w, req, r, w'⟩ :: session env fault w' reqs

/-- What there is of an image: its row, its tags, manifests and links, and its files. -/
structure Undisturbed (env : Env) (z : Key) (w w' : World) : Prop where
  image : w'.db.images.find? z = w.db.images.find? z
  tags : (w'.db.tags.rows.filter fun t => (t.repository, t.imageName) = z) = w.db.tags.rows.filter fun t =>
    (t.repository, t.imageName) = z
  manifests : (w'.db.manifests.rows.filter fun m => (m.repository, m.imageName) = z) =
    w.db.manifests.rows.filter fun m => (m.repository, m.imageName) = z
  links : (w'.db.imageBlobs.filter fun b => b.key = z) = w.db.imageBlobs.filter fun b => b.key = z
  blobFiles : ∀ r digest, (env.repos r).isSome = true → plainDigest env digest = true →
    (∃ b ∈ w.db.imageBlobs, b.key = z ∧ b.repository = (sanitizeDockerKey env.text r "").1 ∧
      cleanDigestHash env b.blobDigest = cleanDigestHash env digest) →
    w'.file (blobPath env r digest) = w.file (blobPath env r digest)
  manifestFiles : ∀ r imageName digest, (env.repos r).isSome = true → plainName imageName = true →
    plainDigest env digest = true →
    sanitizeDockerKey env.text r imageName = z → w'.file (manifestPath env r imageName digest) =
      w.file (manifestPath env r imageName digest)

/-- Whoever mounted a blob since `w` did so as `P` says. -/
def LinkedBy (P : User → Repository → String → Prop) (w w' : World) : Prop :=
  ∃ new, w'.origins = new ++ w.origins ∧ ∀ image digest user source path,
    .mounted image digest user source path ∈ new →
    P user source path

/-- The request keeps to what its credential grants: the name that it is answered for, those that it mounts from, and the
image that it changes. -/
structure Granted (env : Env) (c : Credential) (s : Exchange) : Prop where
  answered : ∀ served, s.result = .ok served → ∃ name, s.request.name = some name ∧
    c.grants name s.request.needs = true
  linked : LinkedBy (fun _ _ path => c.grants path .pull = true) s.before s.after
  changed : ∀ z, ¬Undisturbed env z s.before s.after →
    ∃ name, s.request.name = some name ∧ imageOf env.text name = z ∧ c.grants name s.request.needs = true

/-! ### The condition -/

/-- A mount does not name an image that its user can read and its credential does not grant, a deletion does not have the path
of an upload, and a mirror sends what it is asked for; else as for the images of others. -/
def Careful (env : Env) (c : Credential) (w : World) : Request → Prop
  | .tagsList .. => True
  | .getManifest _ name _ upstream => plainName (parseRepositoryAndImage name).2 = true ∧
      ∀ raw mediaType digest, upstream = .found raw mediaType digest → digest = env.calculateDigest raw
  | .getBlob _ name digest _ => Stored env (imageOf env.text name) w (parseRepositoryAndImage name).1 digest
  | .postUpload cred name q => Harmless env (imageOf env.text name) w (.postUpload cred name q) ∧
      ∀ source, env.getRepo (parseRepositoryAndImage q.source).1 = some source →
        canReadDocker env.text w.db (viewer env cred) source q.source = true → c.grants q.source .pull = true
  | .deleteManifest cred path name reference =>
      Harmless env (imageOf env.text name) w (.deleteManifest cred path name reference) ∧
        Storage.containsText path "/blobs/uploads/" = false
  | .deleteBlob cred path name digest =>
      Harmless env (imageOf env.text name) w (.deleteBlob cred path name digest) ∧
        Storage.containsText path "/blobs/uploads/" = false
  | req => ∀ name, req.name = some name → Harmless env (imageOf env.text name) w req

/-! ### Refusals -/

section Refusals
variable {env : Env} {c : Credential}

attribute [local irreducible] canReadDocker canWriteDocker parseRepositoryAndImage trimSlash

theorem mutateImage_spares_of {I : World → Prop} {name : String} {handler : Handler Served} {Q : Served → Prop}
    (h : Spares I handler Q) :
    Spares I (mutateImage env name handler) Q := by
  unfold mutateImage
  dsimp only
  split
  · exact h
  · exact (Spares.query_any _).bind fun _ _ => h

theorem authorized_refuses (hissued : c.Issued env) (hstar : env.repos "*" = none) {user : User} {name : String}
    {action : Action} (hdenied : c.grants name action = false) (I : World → Prop) :
    Spares I (authorized env (c.credentials user (parseRepositoryAndImage name).1 action) name action) fun _ => False := by
  refine (Spares.ofExcept_any _).bind fun repo _ => ?_
  refine Spares.bind (Q := fun _ => False) (.query fun t user' _ h => ?_) fun _ h => h.elim
  have hgrants := authenticate_grants hissued hstar h
  rw [hdenied] at hgrants
  cases hgrants

/-- A request that its credential does not grant fails before its first change. -/
theorem handle_refuses (hissued : c.Issued env) (hstar : env.repos "*" = none) {req : Request} {user : User} {name : String}
    (hname : req.name = some name) (hcred : req.cred = c.credentials user (parseRepositoryAndImage name).1 req.action)
    (hdenied : c.grants name req.action = false) (I : World → Prop) : Spares I (handle env req) fun _ => False := by
  have hrefuse : ∀ {cred : Credentials} {action : Action} {k : Repository × User → Handler Served},
      cred = c.credentials user (parseRepositoryAndImage name).1 action → c.grants name action = false →
      Spares I ((authorized env cred name action).bind k) fun _ => False := by
    intro cred action k hcred hdenied
    rw [hcred]
    exact (authorized_refuses hissued hstar hdenied I).bind fun _ h => h.elim
  cases req with
  | tagsList cred name last n =>
    cases hname
    exact hrefuse hcred hdenied
  | getManifest cred name reference upstream =>
    cases hname
    exact Spares.require_bind fun _ => hrefuse hcred hdenied
  | getBlob cred name digest upstream =>
    cases hname
    exact hrefuse hcred hdenied
  | putManifest cred name reference body contentType =>
    cases hname
    exact mutateImage_spares_of (Spares.require_bind fun _ => hrefuse hcred hdenied)
  | postUpload cred name q =>
    cases hname
    exact mutateImage_spares_of (hrefuse hcred hdenied)
  | patchUpload cred name id body =>
    cases hname
    exact mutateImage_spares_of (hrefuse hcred hdenied)
  | putUpload cred name id digest body =>
    cases hname
    exact mutateImage_spares_of (Spares.require_bind fun _ => hrefuse hcred hdenied)
  | getUploadStatus cred name id =>
    cases hname
    exact mutateImage_spares_of (hrefuse hcred hdenied)
  | deleteUpload cred name id =>
    cases hname
    exact mutateImage_spares_of (hrefuse hcred hdenied)
  | deleteManifest cred path name reference =>
    cases hname
    exact mutateImage_spares_of (hrefuse hcred hdenied)
  | deleteBlob cred path name digest =>
    cases hname
    exact mutateImage_spares_of (hrefuse hcred hdenied)
  | approve | deleteImage | deleteRepository | administer => cases hname

end Refusals

/-! ### What is mounted -/

section Links
variable {env : Env} {P : User → Repository → String → Prop} {w₀ w w' : World}

theorem LinkedBy.refl (w : World) : LinkedBy P w w := ⟨[], rfl, fun _ _ _ _ _ h => absurd h List.not_mem_nil⟩

theorem LinkedBy.add (h : LinkedBy P w₀ w) (new : List Origin) (horigins : w'.origins = new ++ w.origins)
    (hnew : ∀ image digest user source path, .mounted image digest user source path ∈ new → P user source path) :
      LinkedBy P w₀ w' := by
  obtain ⟨old, hold, hP⟩ := h
  refine ⟨new ++ old, by rw [horigins, hold, List.append_assoc], fun image digest user source path hmem => ?_⟩
  rcases List.mem_append.1 hmem with hmem | hmem
  · exact hnew image digest user source path hmem
  · exact hP image digest user source path hmem

theorem LinkedBy.same (h : LinkedBy P w₀ w) (horigins : w'.origins = w.origins) : LinkedBy P w₀ w' :=
  h.add [] horigins fun _ _ _ _ _ h => absurd h List.not_mem_nil

theorem LinkedBy.mono {R : User → Repository → String → Prop} (h : LinkedBy P w₀ w)
    (hPR : ∀ user source path, P user source path → R user source path) :
    LinkedBy R w₀ w := by
  obtain ⟨new, hnew, hP⟩ := h
  exact ⟨new, hnew, fun image digest user source path hmem =>
    hPR user source path (hP image digest user source path hmem)⟩

theorem write_links {step : Step} {e : DockerError} {f : World → Except DockerError World}
    (h : ∀ t t', f t = .ok t' → t'.origins = t.origins) :
    Spares (LinkedBy P w₀) (Proc.tell step e f) fun _ => True :=
  .tell fun t t' hI hf => hI.same (h t t' hf)

theorem with_links {step : Step} {e : DockerError} (f : World → Except DockerError DockerDB) :
    Spares (LinkedBy P w₀) (Proc.tell step e fun w => w.with (f w)) fun _ => True := by
  refine write_links fun t t' h => ?_
  obtain ⟨db, -, rfl⟩ := map_ok.1 h
  rfl

theorem pure_links {f : World → World} (h : ∀ t, (f t).origins = t.origins) :
    Spares (LinkedBy P w₀) (write fun w => pure (f w)) fun _ => True :=
  write_links fun t _ ht => Except.ok.inj ht ▸ h t

theorem linkBlob_links (step : Step) (repository imageName digest : String) (size : Int) {origin : Origin}
    (horigin : ∀ image digest user source path, origin = .mounted image digest user source path → P user source path) :
    Spares (LinkedBy P w₀) (linkBlob env step repository imageName digest size origin) fun _ => True := by
  refine (with_links fun w => recordDockerBlob env.text w.db repository digest size).bind fun _ _ => .tell fun t t' hI h => ?_
  obtain ⟨db, -, rfl⟩ := map_ok.1 h
  refine hI.add [origin] rfl fun image digest user source path hmem => ?_
  exact horigin image digest user source path (List.mem_singleton.1 hmem).symm

theorem commitContent_links (repository digest content : String) :
    Spares (LinkedBy P w₀) (write (commitContent env repository digest content)) fun _ => True := by
  refine write_links fun t t' h => ?_
  obtain ⟨-, -, h⟩ := bind_ok.1 h
  obtain ⟨-, h⟩ := require_bind_ok.1 h
  obtain rfl := Except.ok.inj h
  simp

theorem commitBlob_links (repository uploadUUID digest : String) :
    Spares (LinkedBy P w₀) (write (commitBlob env repository uploadUUID digest)) fun _ => True := by
  refine write_links fun t t' h => ?_
  obtain ⟨-, -, h⟩ := bind_ok.1 h
  obtain ⟨content, -, h⟩ := bind_ok.1 h
  obtain ⟨-, h⟩ := require_bind_ok.1 h
  obtain rfl := Except.ok.inj h
  simp

theorem appendStaged_links (repository uploadUUID body : String) :
    Spares (LinkedBy P w₀) (appendStaged env repository uploadUUID body) fun _ => True := by
  refine write_links fun t t' h => ?_
  obtain ⟨-, h⟩ := require_bind_ok.1 h
  obtain rfl := Except.ok.inj h
  simp

theorem startUpload_links (repository imageName : String) (q : UploadQuery) :
    Spares (LinkedBy P w₀) (startUpload env repository imageName q) fun _ => True := by
  unfold startUpload
  refine (pure_links fun t => t.mkdirAll_origins _).bind fun _ _ => ?_
  split
  · refine Spares.require_bind fun _ => (Spares.query_any _).bind fun _ _ => ?_
    refine (commitContent_links repository q.digest q.body).bind fun _ _ => ?_
    exact (linkBlob_links _ _ _ _ _ fun _ _ _ _ _ h => by cases h).bind fun _ _ => .pure trivial
  · refine (pure_links fun t => ?_).bind fun _ _ => .pure trivial
    split <;> rfl

attribute [local irreducible] canReadDocker canWriteDocker parseRepositoryAndImage trimSlash

theorem authorized_caller {I : World → Prop} (cred : Credentials) (name : String) (action : Action) :
    Spares I (authorized env cred name action) fun a => a.2 = viewer env cred := by
  refine (Spares.ofExcept_any _).bind fun repo _ => ?_
  refine Spares.bind (Q := fun user => user = viewer env cred) (.query fun t user _ h => ?_) fun user huser => .pure huser
  unfold authenticateAndAuthorize at h
  unfold viewer
  split at h
  · cases h
  · rename_i claims hclaims
    dsimp only at h
    split at h
    · rw [hclaims]
      exact (Except.ok.inj h).symm
    · cases h
  · rename_i hnone
    rw [hnone]
    split at h
    · cases h
    · split at h
      · exact (Except.ok.inj h).symm
      · split at h <;> cases h

theorem handlePatchUpload_links (cred : Credentials) (name id body : String) :
    Spares (LinkedBy P w₀) (handlePatchUpload env cred name id body) fun _ => True :=
  (authorized_spares cred name .push).bind fun _ _ => (appendStaged_links _ id body).bind fun _ _ => .pure trivial

theorem handleGetUploadStatus_links (cred : Credentials) (name id : String) :
    Spares (LinkedBy P w₀) (handleGetUploadStatus env cred name id) fun _ => True :=
  (authorized_spares cred name .push).bind fun _ _ => (appendStaged_links _ id "").bind fun _ _ => .pure trivial

theorem handleDeleteUpload_links (cred : Credentials) (name id : String) :
    Spares (LinkedBy P w₀) (handleDeleteUpload env cred name id) fun _ => True := by
  refine (authorized_spares cred name .push).bind fun _ _ => ?_
  refine (Spares.attempt (pure_links fun t => ?_)).bind fun _ _ => .pure trivial
  split <;> rfl

theorem handlePutUpload_links (cred : Credentials) (name id digest body : String) :
    Spares (LinkedBy P w₀) (handlePutUpload env cred name id digest body) fun _ => True := by
  refine Spares.require_bind fun _ => (authorized_spares cred name .push).bind fun ⟨repo, user⟩ _ => ?_
  refine (appendStaged_links _ id body).bind fun _ _ => ?_
  refine (Spares.query_any _).bind fun content _ => ?_
  split
  · exact (pure_links fun t => t.removeFile_origins _).bind fun _ _ => .throw _
  · refine (Spares.query_any _).bind fun _ _ => ?_
    refine (commitBlob_links _ id digest).bind fun _ _ => ?_
    exact (linkBlob_links _ _ _ _ _ fun _ _ _ _ _ h => by cases h).bind fun _ _ => .pure trivial

theorem handlePutManifest_links (cred : Credentials) (name reference body contentType : String) :
    Spares (LinkedBy P w₀) (handlePutManifest env cred name reference body contentType) fun _ => True := by
  refine Spares.require_bind fun _ => (authorized_spares cred name .push).bind fun ⟨repo, user⟩ _ => ?_
  refine (Spares.ofExcept_any _).bind fun parsed _ => Spares.require_bind fun _ => ?_
  refine (Spares.ofExcept_any _).bind fun ⟨tag, version⟩ _ => ?_
  refine (Spares.query_any _).bind fun _ _ => ?_
  refine (Spares.query_any _).bind fun present _ => Spares.require_bind fun _ => ?_
  refine (Spares.query_any _).bind fun _ _ => ?_
  dsimp only
  split
  · exact (Spares.write_pure fun t hI => hI.same rfl).bind fun _ _ => .pure trivial
  · refine (Spares.query_any _).bind fun existed _ => ?_
    refine (pure_links fun t => t.writeFile_origins _ _).bind fun _ _ => ?_
    refine (Spares.attempt (with_links _)).bind fun r _ => ?_
    split
    · exact .pure trivial
    · split
      · exact (pure_links fun t => t.removeFile_origins _).bind fun _ _ => .throw _
      · exact .throw _

theorem handleDeleteManifest_links (cred : Credentials) (path name reference : String) :
    Spares (LinkedBy P w₀) (handleDeleteManifest env cred path name reference) fun _ => True := by
  refine (authorized_spares cred name _).bind fun ⟨repo, user⟩ _ => ?_
  dsimp only
  split
  · refine (with_links _).bind fun _ _ => ?_
    exact (Spares.attempt (pure_links fun t => t.removeFile_origins _)).bind fun _ _ => .pure trivial
  · refine (with_links _).bind fun _ _ => ?_
    exact .pure trivial

theorem handleDeleteBlob_links (cred : Credentials) (path name digest : String) :
    Spares (LinkedBy P w₀) (handleDeleteBlob env cred path name digest) fun _ => True := by
  refine (authorized_spares cred name _).bind fun ⟨repo, user⟩ _ => ?_
  refine (with_links _).bind fun _ _ => ?_
  exact (pure_links fun t => t.removeFile_origins _).bind fun _ _ => .pure trivial

end Links

/-! #### A mount -/

section Mount
variable {env : Env} {x : Key} {w₀ : World}

/-- The mounts of one request: from its source, if its user could read it. -/
def MountsAs (env : Env) (cred : Credentials) (q : UploadQuery) (w₀ : World) (user : User) (source : Repository)
    (path : String) : Prop :=
  path = q.source ∧ env.getRepo (parseRepositoryAndImage q.source).1 = some source ∧ user = viewer env cred ∧
    canReadDocker env.text w₀.db user source path = true

attribute [local irreducible] canReadDocker canWriteDocker parseRepositoryAndImage trimSlash

theorem askSource_reads {P : User → Repository → String → Prop} (user : User) (source mountDigest : String) :
    Spares (fun w => Untouched env x w₀ w ∧ LinkedBy P w₀ w) (askSource env user source mountDigest) fun mountable =>
      mountable = true → ∀ repository, env.getRepo (parseRepositoryAndImage source).1 = some repository →
        canReadDocker env.text w₀.db user repository source = true := by
  unfold askSource
  dsimp only
  split
  · exact .pure fun h => by cases h
  · rename_i fromRepository hrepo
    split
    · exact .pure fun h => by cases h
    · have hask : Spares (fun w => Untouched env x w₀ w ∧ LinkedBy P w₀ w) (Proc.call .query .unavailable fun w =>
          .ok (canReadDocker env.text w.db user fromRepository source,
            { w with origins := .asked w.db user fromRepository source :: w.origins }))
          fun canReadSource => canReadSource = canReadDocker env.text w₀.db user fromRepository source := by
        intro w
        refine .call (fun _ => trivial) (fun _ _ _ _ _ ha => by cases ha) fun t a t' _ hI _ h => ?_
        cases h
        refine ⟨⟨hI.1.with (.refl x _) fun _ => rfl, hI.2.add [.asked t.db user fromRepository source] rfl
          fun _ _ _ _ _ hmem => by cases List.mem_singleton.1 hmem⟩, trivial, fun b hb => ?_⟩
        rw [← Except.ok.inj hb]
        exact canReadDocker_accounts hI.1.rows.accounts user fromRepository source
      refine hask.bind fun canReadSource hread => ?_
      split
      · rename_i hcan
        refine (Spares.query_any _).bind fun _ _ => Spares.require_bind fun _ => ?_
        refine (Spares.query_any _).bind fun _ _ => ?_
        refine (Spares.query_any _).bind fun _ _ => .pure fun _ repository h => ?_
        obtain rfl : fromRepository = repository := Option.some.inj (hrepo.symm.trans h)
        exact hread.symm.trans hcan
      · exact .pure fun h => by cases h

theorem handlePostUpload_mounts (henv : env.Named) (hhash : env.Hashes) (cred : Credentials) {name : String} {q : UploadQuery}
    (hx : imageOf env.text name = x) (hid : plainID q.uuid = true)
    (hstored : Stored env x w₀ (parseRepositoryAndImage name).1 q.digest) :
    Spares (fun w => Untouched env x w₀ w ∧ LinkedBy (MountsAs env cred q w₀) w₀ w) (handlePostUpload env cred name q)
      fun _ => True := by
  have hauthorized : Spares (fun w => Untouched env x w₀ w ∧ LinkedBy (MountsAs env cred q w₀) w₀ w)
    (authorized env cred name .push)
      fun a => (a.1.name = (parseRepositoryAndImage name).1 ∧ (env.repos a.1.name).isSome = true) ∧
          a.2 = viewer env cred :=
    (authorized_spares cred name .push).both (authorized_caller cred name .push)
  refine hauthorized.bind fun ⟨repo, user⟩ ⟨⟨hname, hr⟩, huser⟩ => ?_
  dsimp only at hname hr huser
  have hkey : sanitizeDockerKey env.text repo.name (parseRepositoryAndImage name).2 = x := by
    rw [hname]
    exact hx
  have hmount : ∀ mountable : Bool, (mountable = true → ∀ repository, env.getRepo (parseRepositoryAndImage q.source).1 =
    some repository → canReadDocker env.text w₀.db user repository q.source = true) →
      Spares (fun w => Untouched env x w₀ w ∧ LinkedBy (MountsAs env cred q w₀) w₀ w)
          (mountOrUpload env repo user (parseRepositoryAndImage name).2 q mountable) fun _ => True := by
    intro mountable hread
    unfold mountOrUpload
    split
    · rename_i hm
      split
      · exact .throw _
      · rename_i source hsource
        refine (Spares.query_any _).bind fun _ _ => ?_
        refine ((linkBlob_spares _ _ _ _ hkey).and (linkBlob_links _ _ _ _ _ ?_)).bind fun _ _ => .pure trivial
        intro image digest user' source' path h
        cases h
        exact ⟨rfl, hsource, huser, hread hm source hsource⟩
    · exact (startUpload_spares henv hhash hr hkey hid (hname ▸ hstored)).and (startUpload_links _ _ _)
  dsimp only
  split
  · exact (askSource_reads user q.source q.mount).bind fun mountable hread => hmount mountable hread
  · exact hmount false fun h => by cases h

end Mount

/-! #### What the cache of a mirror changes -/

/-- The rows of the other images, which the cache of a mirror leaves alone. -/
structure OtherRows (x : Key) (db db' : DockerDB) : Prop where
  images : (db'.images.rows.filter fun i => i.key ≠ x) = db.images.rows.filter fun i => i.key ≠ x
  tags : (db'.tags.rows.filter fun t => (t.repository, t.imageName) ≠ x) = db.tags.rows.filter fun t =>
    (t.repository, t.imageName) ≠ x
  manifests : (db'.manifests.rows.filter fun m => (m.repository, m.imageName) ≠ x) =
    db.manifests.rows.filter fun m => (m.repository, m.imageName) ≠ x
  links : (db'.imageBlobs.filter fun b => b.key ≠ x) = db.imageBlobs.filter fun b => b.key ≠ x

/-- What a pull leaves. -/
structure Pulled (env : Env) (x : Key) (w₀ w : World) : Prop extends SameFiles env x w₀ w where
  rows : OtherRows x w₀.db w.db
  links : LinkedBy (fun _ _ _ => False) w₀ w

section Pulled
variable {env : Env} {x : Key} {w₀ w : World}

theorem OtherRows.refl (x : Key) (db : DockerDB) : OtherRows x db db := ⟨rfl, rfl, rfl, rfl⟩

theorem OtherRows.trans {db db₁ db₂ : DockerDB} (h : OtherRows x db db₁) (h' : OtherRows x db₁ db₂) :
    OtherRows x db db₂ :=
  ⟨h'.images.trans h.images, h'.tags.trans h.tags, h'.manifests.trans h.manifests, h'.links.trans h.links⟩

theorem SameRows.other {db db' : DockerDB} (h : SameRows x db db') : OtherRows x db db' := by
  refine ⟨?_, h.tags, h.manifests, h.links⟩
  rw [show db'.images = db.images from congrArg Accounts.images h.accounts]

theorem putDockerManifest_other {text : Text} {db db' : DockerDB} {m : ManifestWrite} {tag username : String}
    {allowMirrorCreate : Bool} (hx : sanitizeDockerKey text m.repository m.imageName = x)
    (h : putDockerManifest text db m tag username allowMirrorCreate = .ok db') :
    OtherRows x db db' := by
  subst hx
  obtain ⟨⟨write, tag'⟩, hwrite, h⟩ := bind_ok.1 h
  obtain ⟨-, hwrite⟩ := require_bind_ok.1 hwrite
  cases hwrite
  obtain ⟨images, manifests, tags, himages, hmanifests, htags, rfl⟩ := putDockerManifestTx_ok h
  refine ⟨?_, upsertTag_own rfl htags, upsertManifest_own rfl hmanifests, linkBlobs_own rfl⟩
  unfold imageForManifest at himages
  split at himages
  · split at himages
    · show images.rows.filter _ = _
      rw [(Table.insert_ok himages).2]
      exact filter_append_own (decide_eq_false (not_not_intro rfl))
    · cases himages
  · split at himages
    · cases himages
    · split at himages
      · cases himages
      · rw [← Except.ok.inj himages]

theorem Undisturbed.of_rows {z : Key} (hz : z ≠ x) (hrows : OtherRows x w₀.db w.db) (hfiles : SameFiles env x w₀ w) :
    Undisturbed env z w₀ w := by
  have hfilter : ∀ {α : Type} {l l' : List α} {key : α → Key}, (l'.filter fun a => key a ≠ x) = l.filter
    (fun a => key a ≠ x) → (l'.filter fun a => key a = z) = l.filter fun a => key a = z := by
    intro α l l' key h
    have hown : ∀ a, decide (key a = z) = true → decide (key a ≠ x) = true := by
      intro a ha
      exact decide_eq_true (of_decide_eq_true ha ▸ hz)
    rw [← filter_filter_own (l := l') hown, h, filter_filter_own hown]
  refine ⟨find?_own hrows.images fun i hi => decide_eq_true (hi ▸ hz), hfilter hrows.tags, hfilter hrows.manifests,
    hfilter hrows.links, fun r digest hr hd ⟨b, hb, hkey, hrepo, hhash⟩ => ?_, fun r imageName digest hr hname hd hkey =>
      ?_⟩
  · exact hfiles.blobFiles r digest hr hd ⟨b, hb, hkey ▸ hz, hrepo, hhash⟩
  · exact hfiles.manifestFiles r imageName digest hr hname hd (hkey ▸ hz)

theorem Pulled.refl (env : Env) (x : Key) (w : World) : Pulled env x w w := ⟨.refl env x w, .refl x w.db, .refl w⟩

theorem Pulled.writeFile (hw : Pulled env x w₀ w) {path content : String} (hfree : Free env x w₀ path (some content)) :
    Pulled env x w₀ (w.writeFile path content) :=
  ⟨hw.toSameFiles.file (fun p => w.file_writeFile path content p) hfree, hw.rows, hw.links.same rfl⟩

theorem Pulled.mkdirAll (hw : Pulled env x w₀ w) (dir : String) : Pulled env x w₀ (w.mkdirAll dir) :=
  ⟨hw.toSameFiles.congr fun _ => rfl, hw.rows, hw.links.same rfl⟩

attribute [local irreducible] canReadDocker canWriteDocker parseRepositoryAndImage trimSlash

theorem handleTagsList_pulled (cred : Credentials) (name last : String) (n : Int) :
    Spares (Pulled env x w₀) (handleTagsList env cred name last n) fun _ => True :=
  (authorized_spares cred name .pull).bind fun _ _ => (Spares.query_any _).bind fun _ _ => .pure trivial

theorem cacheDockerManifest_pulled {m : ManifestWrite} (tag : String)
    (hx : sanitizeDockerKey env.text m.repository m.imageName = x) :
    Spares (Pulled env x w₀) (cacheDockerManifest env m tag) fun _ => True := by
  refine .write fun t t' hI h => ?_
  obtain ⟨db, hdb, rfl⟩ := map_ok.1 h
  refine ⟨hI.toSameFiles.congr fun _ => rfl, hI.rows.trans (putDockerManifest_other hx hdb), hI.links.add _ rfl ?_⟩
  intro image digest user source path hmem
  obtain ⟨d, -, hd⟩ := List.mem_map.1 hmem
  cases hd

theorem cacheUpstreamManifest_pulled (henv : env.Named) (hhash : env.Hashes) {repo : Repository} {imageName : String}
    (reference : String)
    (access : Access) {upstream : Upstream} (hr : (env.repos repo.name).isSome = true) (hname : plainName imageName = true)
    (hx : sanitizeDockerKey env.text repo.name imageName = x)
    (hupstream : ∀ raw mediaType digest, upstream = .found raw mediaType digest → digest = env.calculateDigest raw) :
    Spares (Pulled env x w₀) (cacheUpstreamManifest env repo imageName reference access upstream) fun _ => True := by
  refine Spares.require_bind fun _ => (Spares.query_any _).bind fun _ _ => ?_
  cases upstream with
  | missing => exact .throw _
  | invalid => exact .throw _
  | found raw mediaType digest =>
    have hd : plainDigest env digest = true := hupstream raw mediaType digest rfl ▸ hhash.plain raw
    refine (Spares.query_any _).bind fun _ _ => ?_
    refine (Spares.ofExcept_any _).bind fun parsed _ => ?_
    have hcache : Spares (Pulled env x w₀) (cacheDockerManifest env
      (manifestWrite repo.name imageName raw parsed digest mediaType) reference)
        fun _ => True := cacheDockerManifest_pulled reference hx
    refine hcache.bind fun _ _ => ?_
    dsimp only
    split
    · refine (Spares.attempt (.write_pure fun t hI => hI.writeFile ?_)).bind fun _ _ => .pure trivial
      exact free_manifest henv hr hname hd hx
    · exact .pure trivial

theorem serveManifest_pulled (repo : Repository) (user : User) (imageName digest mediaType : String) (access : Access)
    (upstream : Upstream) :
    Spares (Pulled env x w₀) (serveManifest env repo user imageName digest mediaType access upstream) fun _ => True := by
  refine (Spares.query_any _).bind fun locked _ => ?_
  refine (Spares.query_any _).bind fun m _ => ?_
  cases m with
  | some m =>
    dsimp only
    split
    · exact .pure trivial
    · exact (Spares.query_any _).bind fun _ _ => .pure trivial
  | none =>
    refine Spares.require_bind fun _ => (Spares.query_any _).bind fun raw _ => ?_
    cases raw with
    | some raw => exact .pure trivial
    | none =>
      refine Spares.require_bind fun _ => ?_
      cases upstream with
      | missing => exact .throw _
      | invalid => exact .throw _
      | found => exact .pure trivial

theorem handleGetManifest_pulled (henv : env.Named) (hhash : env.Hashes) (cred : Credentials) {name : String}
    (reference : String)
    {upstream : Upstream} (hx : imageOf env.text name = x) (hplain : plainName (parseRepositoryAndImage name).2 = true)
    (hupstream : ∀ raw mediaType digest, upstream = .found raw mediaType digest → digest = env.calculateDigest raw) :
    Spares (Pulled env x w₀) (handleGetManifest env cred name reference upstream) fun _ => True := by
  refine Spares.require_bind fun _ => (authorized_spares cred name .pull).bind fun ⟨repo, user⟩ ⟨hname, hr⟩ => ?_
  dsimp only at hname hr
  have hkey : sanitizeDockerKey env.text repo.name (parseRepositoryAndImage name).2 = x := by
    rw [hname]
    exact hx
  refine (Spares.query_any _).bind fun access _ => ?_
  split
  · exact serveManifest_pulled repo user _ _ _ access upstream
  · refine (Spares.query_any _).bind fun tag _ => ?_
    cases tag with
    | some tag => exact serveManifest_pulled repo user _ _ _ access upstream
    | none => exact cacheUpstreamManifest_pulled henv hhash reference access hr hplain hkey hupstream

theorem cacheBlob_pulled (henv : env.Named) (hhash : env.Hashes) {repo : Repository} {digest : String} (content : String)
    (hr : (env.repos repo.name).isSome = true) (hstored : Stored env x w₀ repo.name digest) :
    Spares (Pulled env x w₀) (cacheBlob env repo digest content) fun _ => True := by
  unfold cacheBlob
  split
  · refine (Spares.attempt (Spares.query_any _)).bind fun unlocked _ => ?_
    cases unlocked with
    | error e => exact .ofExcept fun _ _ => trivial
    | ok _ =>
      have hcommit : Spares (Pulled env x w₀) (write (commitContent env repo.name digest content)) fun _ => True := by
        refine .write fun t t' hI h => ?_
        obtain ⟨-, -, h⟩ := bind_ok.1 h
        obtain ⟨hdigest, h⟩ := require_bind_ok.1 h
        obtain rfl := Except.ok.inj h
        refine (hI.mkdirAll _).writeFile (free_blob henv hr (hdigest ▸ hhash.plain content) fun hs => ?_)
        exact (hstored content hdigest hs).symm
      refine (Spares.attempt hcommit).bind fun committed _ => ?_
      cases committed with
      | error e => exact .pure trivial
      | ok _ =>
        refine (Spares.attempt (Spares.write fun t t' hI h => ?_)).bind fun _ _ => .pure trivial
        obtain ⟨db, hdb, rfl⟩ := map_ok.1 h
        exact ⟨hI.toSameFiles.congr fun _ => rfl, hI.rows.trans (recordDockerBlob_sameRows x hdb).other,
          hI.links.same rfl⟩
  · exact .pure trivial

theorem handleGetBlob_pulled (henv : env.Named) (hhash : env.Hashes) (cred : Credentials) {name digest : String}
    (upstream : Option String) (hstored : Stored env x w₀ (parseRepositoryAndImage name).1 digest) :
    Spares (Pulled env x w₀) (handleGetBlob env cred name digest upstream) fun _ => True := by
  refine (authorized_spares cred name .pull).bind fun ⟨repo, user⟩ ⟨hname, hr⟩ => ?_
  dsimp only at hname hr
  have hmissing : ∀ locks : List Locks.ResourceLock, Spares (Pulled env x w₀) (do
      Proc.ofExcept (require (locks = []) .blobUnknown)
      let content ← Proc.ofExcept (orError upstream .blobUnknown)
      cacheBlob env repo digest content
      pure Served.upstream) fun _ => True := by
    intro locks
    refine Spares.require_bind fun _ => (Spares.ofExcept_any _).bind fun content _ => ?_
    exact (cacheBlob_pulled henv hhash content hr (hname ▸ hstored)).bind fun _ _ => .pure trivial
  have hserve : ∀ (locks : List Locks.ResourceLock) (content : Option String),
    Spares (Pulled env x w₀) (serveBlob env repo digest upstream locks content)
      fun _ => True := by
    intro locks content
    cases content with
    | some content => exact .pure trivial
    | none => exact hmissing locks
  refine (Spares.query_any _).bind fun locks _ => Spares.require_bind fun _ => ?_
  refine (Spares.query_any _).bind fun access _ => ?_
  dsimp only
  split
  · refine (Spares.query_any _).bind fun linked _ => Spares.require_bind fun _ => ?_
    refine Spares.bind (Q := fun _ => True) (.pure trivial) fun allowLocalBlob _ => ?_
    split
    · exact (Spares.query_any _).bind fun content _ => hserve locks content
    · exact hserve locks none
  · refine Spares.bind (Q := fun _ => True) (.pure trivial) fun allowLocalBlob _ => ?_
    split
    · exact (Spares.query_any _).bind fun content _ => hserve locks content
    · exact hserve locks none

end Pulled

/-! ### Sessions -/

section Sessions
variable {env : Env} {c : Credential} {w₀ : World}

attribute [local irreducible] canReadDocker canWriteDocker parseRepositoryAndImage trimSlash

/-- A careful request leaves the other images as they are, and mounts from what its credential grants. -/
theorem handle_careful (henv : env.Named) (hhash : env.Hashes) {req : Request} {name : String} (hname : req.name = some name)
    (hreq : Careful env c w₀ req) (fault : Step → Bool) :
    (∀ z, z ≠ imageOf env.text name → Undisturbed env z w₀ (Proc.exec fault (handle env req) w₀).2) ∧
      LinkedBy (fun _ _ path => c.grants path .pull = true) w₀ (Proc.exec fault (handle env req) w₀).2 := by
  have hpull : ∀ {p : Handler Served}, Spares (Pulled env (imageOf env.text name) w₀) p (fun _ => True) →
      (∀ z, z ≠ imageOf env.text name → Undisturbed env z w₀ (Proc.exec fault p w₀).2) ∧
        LinkedBy (fun _ _ path => c.grants path .pull = true) w₀ (Proc.exec fault p w₀).2 := by
    intro p hp
    obtain ⟨hpulled, -⟩ := hp.exec (.refl env _ w₀) fault
    exact ⟨fun z hz => .of_rows hz hpulled.rows hpulled.toSameFiles, hpulled.links.mono fun _ _ _ h => h.elim⟩
  have hpush : ∀ {p : Handler Served}, Spares (Untouched env (imageOf env.text name) w₀) p (fun _ => True) →
      Spares (LinkedBy (fun _ _ path => c.grants path .pull = true) w₀) p (fun _ => True) →
      (∀ z, z ≠ imageOf env.text name → Undisturbed env z w₀ (Proc.exec fault p w₀).2) ∧
        LinkedBy (fun _ _ path => c.grants path .pull = true) w₀ (Proc.exec fault p w₀).2 := by
    intro p hp hlinks
    obtain ⟨huntouched, -⟩ := hp.exec (.refl env _ w₀) fault
    exact ⟨fun z hz => .of_rows hz huntouched.rows.other huntouched.toSameFiles, (hlinks.exec (.refl w₀) fault).1⟩
  cases req with
  | tagsList cred name last n =>
    cases hname
    exact hpull (handleTagsList_pulled cred _ last n)
  | getManifest cred name reference upstream =>
    cases hname
    exact hpull (handleGetManifest_pulled henv hhash cred reference rfl hreq.1 hreq.2)
  | getBlob cred name digest upstream =>
    cases hname
    exact hpull (handleGetBlob_pulled henv hhash cred upstream hreq)
  | putManifest cred name reference body contentType =>
    cases hname
    exact hpush (handle_spares henv hhash rfl rfl (hreq _ rfl))
      (mutateImage_spares_of (handlePutManifest_links cred _ reference body contentType))
  | postUpload cred name q =>
    cases hname
    obtain ⟨⟨hid, hstored⟩, hmount⟩ := hreq
    obtain ⟨⟨huntouched, hlinks⟩, -⟩ :=
      (mutateImage_spares_of (handlePostUpload_mounts henv hhash cred rfl hid hstored)).exec ⟨.refl env _ w₀,
        .refl w₀⟩ fault
    refine ⟨fun z hz => .of_rows hz huntouched.rows.other huntouched.toSameFiles, hlinks.mono ?_⟩
    rintro user source path ⟨rfl, hsource, rfl, hread⟩
    exact hmount source hsource hread
  | patchUpload cred name id body =>
    cases hname
    exact hpush (handle_spares henv hhash rfl rfl (hreq _ rfl))
      (mutateImage_spares_of (handlePatchUpload_links cred _ id body))
  | putUpload cred name id digest body =>
    cases hname
    exact hpush (handle_spares henv hhash rfl rfl (hreq _ rfl))
      (mutateImage_spares_of (handlePutUpload_links cred _ id digest body))
  | getUploadStatus cred name id =>
    cases hname
    exact hpush (handle_spares henv hhash rfl rfl (hreq _ rfl))
      (mutateImage_spares_of (handleGetUploadStatus_links cred _ id))
  | deleteUpload cred name id =>
    cases hname
    exact hpush (handle_spares henv hhash rfl rfl (hreq _ rfl)) (mutateImage_spares_of (handleDeleteUpload_links cred _ id))
  | deleteManifest cred path name reference =>
    cases hname
    exact hpush (handle_spares henv hhash rfl rfl hreq.1)
      (mutateImage_spares_of (handleDeleteManifest_links cred path _ reference))
  | deleteBlob cred path name digest =>
    cases hname
    exact hpush (handle_spares henv hhash rfl rfl hreq.1) (mutateImage_spares_of (handleDeleteBlob_links cred path _ digest))
  | approve | deleteImage | deleteRepository | administer => cases hname

theorem Careful.action {w : World} {req : Request} (h : Careful env c w req) : req.action = req.needs := by
  cases req with
  | deleteManifest cred path name reference =>
    show (if Storage.containsText path "/blobs/uploads/" = true then Action.push else .delete) = .delete
    rw [h.2]
    rfl
  | deleteBlob cred path name digest =>
    show (if Storage.containsText path "/blobs/uploads/" = true then Action.push else .delete) = .delete
    rw [h.2]
    rfl
  | _ => rfl

theorem request_granted (henv : env.Named) (hhash : env.Hashes) (hstar : env.repos "*" = none) (hissued : c.Issued env)
    {req : Request} (hmade : req.MadeWith c) (hreq : Careful env c w₀ req) (fault : Step → Bool) :
    Granted env c ⟨w₀, req, (Proc.exec fault (handle env req) w₀).1, (Proc.exec fault (handle env req) w₀).2⟩ := by
  obtain ⟨user, name, hname, hcred⟩ := hmade
  obtain ⟨hothers, hlinks⟩ := handle_careful henv hhash hname hreq fault
  have hrefused : c.grants name req.needs = false →
      (Proc.exec fault (handle env req) w₀).2 = w₀ ∧ ∀ served, (Proc.exec fault (handle env req) w₀).1 ≠
          .ok served := by
    intro hdenied
    exact (handle_refuses hissued hstar hname hcred (hreq.action ▸ hdenied) (· = w₀)).exec rfl fault
  refine ⟨fun served hserved => ?_, hlinks, fun z hz => ?_⟩
  · refine ⟨name, hname, ?_⟩
    by_contra hdenied
    exact (hrefused (Bool.eq_false_iff.2 hdenied)).2 served hserved
  · refine ⟨name, hname, ?_, ?_⟩
    · by_contra hother
      exact hz (hothers z fun h => hother h.symm)
    · by_contra hdenied
      refine hz ?_
      show Undisturbed env z w₀ (Proc.exec fault (handle env req) w₀).2
      rw [(hrefused (Bool.eq_false_iff.2 hdenied)).1]
      exact ⟨rfl, rfl, rfl, rfl, fun _ _ _ _ _ => rfl, fun _ _ _ _ _ _ _ => rfl⟩

/-- In a session of careful requests every one keeps to what the credential grants. -/
theorem session_granted {env : Env} (henv : env.Named) (hhash : env.Hashes) (hstar : env.repos "*" = none) {c : Credential}
    (hissued : c.Issued env) (fault : Step → Bool) (w : World) (reqs : List Request)
    (hmade : ∀ req ∈ reqs, req.MadeWith c) (hcareful : ∀ s ∈ session env fault w reqs, Careful env c s.before s.request) :
      ∀ s ∈ session env fault w reqs, Granted env c s := by
  induction reqs generalizing w with
  | nil => exact fun s hs => absurd hs List.not_mem_nil
  | cons req reqs ih =>
    intro s hs
    rcases List.mem_cons.1 hs with rfl | hs
    · exact request_granted henv hhash hstar hissued (hmade req List.mem_cons_self) (hcareful _ List.mem_cons_self) fault
    · exact ih _ (fun r hr => hmade r (List.mem_cons_of_mem _ hr)) (fun t ht => hcareful t (List.mem_cons_of_mem _ ht)) s hs

end Sessions

/-! #### A token for one of two images -/

def openToken (actions : String) : Credential :=
  .token (handleTokenAuth layerEnv openLayer ⟨"eve", []⟩ (fun _ _ => true) ["repository:app/open:" ++ actions])

def tokenPost (actions : String) (q : UploadQuery) : Request :=
  .postUpload ((openToken actions).credentials ⟨"guest", []⟩ "app" .push) "app/open" q

/-- The layer is stored, `app/secret` links it, and Eve publishes both images. -/
def secretLayer : World := { openLayer with db := { twoImages with
  members := ⟨[⟨"app", "open", "u2", 1⟩, ⟨"app", "secret", "u2", 1⟩], by simp [DockerMember.key]⟩
  imageBlobs := [⟨"app", "secret", "sha256:bb", "sha256:aa"⟩], blobs := ⟨[⟨"app", "sha256:aa", 5⟩], nodup_layer⟩ }
    }

def Exchange.mounts (s : Exchange) (source : String) : Bool := s.after.origins.any fun o => match o with
  | .mounted _ _ _ _ path => path = source
  | _ => false

theorem openToken_issued (actions : String) : (openToken actions).Issued layerEnv :=
  ⟨openLayer, ⟨"eve", []⟩, fun _ _ => true, ["repository:app/open:" ++ actions], rfl⟩

theorem tokenPost_made (actions : String) (q : UploadQuery) : (tokenPost actions q).MadeWith (openToken actions) := by
  refine ⟨⟨"guest", []⟩, "app/open", rfl, ?_⟩
  have hname : (parseRepositoryAndImage "app/open").1 = "app" := by decide +kernel
  rw [hname]
  rfl

/-- Eve uploads the layer, and mounts it from the image itself. -/
def uploadAndMount : List Request :=
  [tokenPost "pull,push" ⟨"", "", "sha256:aa", "layer", "1"⟩,
    tokenPost "pull,push" ⟨"sha256:aa", "app/open", "", "", "2"⟩]

/-- With a token for `app/open` she keeps to it. -/
theorem session_granted_mount :
    (session layerEnv (fun _ => false) openLayer uploadAndMount).map (fun s => (s.result, s.mounts "app/open")) =
      [(.ok .created, false), (.ok .created, true)] ∧
      ∀ s ∈ session layerEnv (fun _ => false) openLayer uploadAndMount, Granted layerEnv (openToken "pull,push") s := by
  refine ⟨by decide +kernel, session_granted layerEnv_named layerEnv_hashes rfl (openToken_issued _) _ _ _ (fun req hreq =>
    ?_) fun s hs => ?_⟩
  · rcases List.mem_cons.1 hreq with rfl | hreq
    · exact tokenPost_made _ _
    · rw [List.mem_singleton.1 hreq]
      exact tokenPost_made _ _
  · have himage : imageOf layerEnv.text "app/open" = ("app", "open") := by decide +kernel
    -- no other image links anything
    have halone : ∀ s ∈ session layerEnv (fun _ => false) openLayer uploadAndMount,
        (s.before.db.imageBlobs.all fun b => b.key = ("app", "open")) = true := by decide +kernel
    have hown := fun b hb => of_decide_eq_true (List.all_eq_true.1 (halone s hs) b hb)
    rcases List.mem_cons.1 hs with rfl | hs
    · refine ⟨⟨by decide +kernel, fun content _ ⟨b, hb, hne, _⟩ => absurd (himage ▸ hown b hb) hne⟩,
        fun source hsource => ?_⟩
      have hrepo : layerEnv.getRepo (parseRepositoryAndImage "").1 = none := by decide +kernel
      cases hrepo.symm.trans hsource
    · rw [List.mem_singleton.1 hs] at hown ⊢
      exact ⟨⟨by decide +kernel, fun content _ ⟨b, hb, hne, _⟩ => absurd (himage ▸ hown b hb) hne⟩,
        fun _ _ _ => by decide +kernel⟩

/-- With a token to push to `app/open` Eve mounts the layer of `app/secret`, which the token does not name. -/
theorem token_exceeded :
    ¬∀ (env : Env) (c : Credential) (w : World) (reqs : List Request), env.Named → env.Hashes →
      env.repos "*" = none →
      c.Issued env →
      (∀ req ∈ reqs, req.MadeWith c) → ∀ s ∈ session env (fun _ => false) w reqs, Granted env c s := by
  intro hall
  have hmounted : (session layerEnv (fun _ => false) secretLayer
    [tokenPost "push" ⟨"sha256:aa", "app/secret", "", "", "1"⟩]).any (·.mounts "app/secret") = true := by decide +kernel
  obtain ⟨s, hs, hany⟩ := List.any_eq_true.1 hmounted
  have hgranted := hall layerEnv (openToken "push") secretLayer _ layerEnv_named layerEnv_hashes rfl (openToken_issued _)
    (fun req hreq => List.mem_singleton.1 hreq ▸ tokenPost_made _ _) s hs
  obtain ⟨new, hnew, hgrants⟩ := hgranted.linked
  have hbefore : s.before.origins = [] := by
    rw [List.mem_singleton.1 hs]
    rfl
  rw [hbefore, List.append_nil] at hnew
  obtain ⟨o, ho, hpath⟩ := List.any_eq_true.1 hany
  cases o with
  | mounted image digest user source path =>
    have hgrant := hgrants image digest user source path (hnew ▸ ho)
    rw [of_decide_eq_true hpath] at hgrant
    exact absurd hgrant (by decide +kernel)
  | uploaded | asked | cached => cases hpath

end Renop.Docker
