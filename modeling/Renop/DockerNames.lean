import Renop.DockerHandlers
import Renop.ResourceLockRules

/-!
# Private images under every name

A request names an image in its own spelling. The tables find it under one normal form of that spelling and the locks
under another, and a name of one segment is no image at all for `CanReadDocker`. What a name gives away is right if the
rule that `CanReadDocker` applies to it (`imageRule`) is the rule of the image that it finds, and only then.
-/

namespace Renop.Docker

open Sql Interleave
open Renop.Locks
open Renop.SuperTeam (Text)
open Renop.Cargo (Key)

/-! ### The rule of a path -/

/-- The image and the lock target that `CanReadDocker` looks at, or none for a repository. -/
def imageRule (text : Text) (repository path : String) : Option (Key × Except LockError LockTarget) :=
  if '/' ∈ (trimSlash path).toList then
    let imageName := (parseRepositoryAndImage path).2
    some (sanitizeDockerKey text repository imageName, normalizePackageTarget text .docker repository imageName "")
  else none

section Rule
variable {text : Text} {db : DockerDB} {user : User} {repo : Repository} {repository imageName path path' : String}

theorem getDockerImageAccess_congr {a a' : String}
    (h : sanitizeDockerKey text repository a = sanitizeDockerKey text repository a') :
    getDockerImageAccess text db repository a = getDockerImageAccess text db repository a' := by
  funext username
  unfold getDockerImageAccess
  rw [h]

theorem dockerLocks_congr {a a' : String} (h : normalizePackageTarget text .docker repository a "" =
    normalizePackageTarget text .docker repository a' "") : dockerLocks text db repository a "" = dockerLocks text db
      repository a' "" := by
  unfold dockerLocks getResourceLocks
  rw [h]

theorem canReadImage_congr {a a' : String}
    (haccess : sanitizeDockerKey text repo.name a = sanitizeDockerKey text repo.name a')
    (hlocks : normalizePackageTarget text .docker repo.name a "" = normalizePackageTarget text .docker repo.name a' "") :
    canReadImage text db user repo a = canReadImage text db user repo a' := by
  unfold canReadImage
  rw [getDockerImageAccess_congr haccess, dockerLocks_congr hlocks]

theorem canReadDocker_congr (h : imageRule text repo.name path = imageRule text repo.name path') :
    canReadDocker text db user repo path = canReadDocker text db user repo path' := by
  unfold imageRule at h
  unfold canReadDocker
  by_cases hp : '/' ∈ (trimSlash path).toList
  · by_cases hp' : '/' ∈ (trimSlash path').toList
    · rw [if_pos hp, if_pos hp'] at h
      obtain ⟨haccess, hlocks⟩ := Prod.mk.inj (Option.some_inj.1 h)
      rw [if_pos hp, if_pos hp', canReadImage_congr haccess hlocks]
    · rw [if_pos hp, if_neg hp'] at h
      cases h
  · by_cases hp' : '/' ∈ (trimSlash path').toList
    · rw [if_neg hp, if_pos hp'] at h
      cases h
    · rw [if_neg hp, if_neg hp']

theorem canReadDocker_invalid {key : Key} {e : LockError} (h : imageRule text repo.name path = some (key, .error e)) :
    canReadDocker text db user repo path = false := by
  unfold imageRule at h
  split at h
  · rename_i hp
    obtain ⟨-, hlocks⟩ := Prod.mk.inj (Option.some_inj.1 h)
    unfold canReadDocker canReadImage dockerLocks getResourceLocks
    rw [if_pos hp, hlocks]
    rfl
  · cases h

end Rule

/-! ### What a request gives away -/

/-- Data of an image, in contrast to what a mirror answers. -/
def Served.disclosed : Served → Prop
  | .tags l => l ≠ []
  | .manifest .. | .localBlob _ => True
  | .upstream | .created | .accepted | .noContent => False

/-- A request that reads under a name. -/
def Request.reads (name : String) : Request → Prop
  | .tagsList _ n _ _ | .getManifest _ n _ _ | .getBlob _ n _ _ => n = name
  | _ => False

def Request.cred : Request → Credentials
  | .tagsList cred _ _ _ | .getManifest cred _ _ _ | .getBlob cred _ _ _ => cred
  | .putManifest cred _ _ _ _ | .postUpload cred _ _ | .patchUpload cred _ _ _ | .putUpload cred _ _ _ _ => cred
  | .getUploadStatus cred _ _ | .deleteUpload cred _ _ | .deleteManifest cred _ _ _ | .deleteBlob cred _ _ _ => cred
  | .approve _ | .deleteImage _ _ | .deleteRepository _ | .administer _ => ⟨⟨"", []⟩, none, false⟩

/-- The account that a request is answered for. -/
def viewer (env : Env) (cred : Credentials) : User :=
  match cred.bearer with
  | some (some claims) => ⟨claims.subject, (env.tokenRoles claims.subject).getD []⟩
  | some none | none => cred.user

/-- The image that a name stands for. -/
def imageOf (text : Text) (name : String) : Key :=
  sanitizeDockerKey text (parseRepositoryAndImage name).1 (parseRepositoryAndImage name).2

def PackageReadLocked (db : DockerDB) (i : DockerImage) : Prop :=
  ∃ l ∈ resourceLocksQuery db.lockDB .docker, l.target.format = .package .docker ∧
    l.target.repository = i.repository ∧ l.target.name = i.imageName ∧ l.target.version = "" ∧ l.mode = .read

/-- Under a name a closed image is shown to those only who can read it under its own. -/
def Confined (text : Text) (name : String) : Prop :=
  ∀ (env : Env) (fault : Step → Bool) (w w' : World) (req : Request) (served : Served) (repo : Repository)
    (i : DockerImage), env.text = text → env.getRepo (parseRepositoryAndImage name).1 = some repo → req.reads name →
    w.db.images.find? (imageOf text name) = some i → (i.isPrivate = true ∨ PackageReadLocked w.db i) →
    Proc.exec fault (handle env req) w = (.ok served, w') → served.disclosed →
    canReadDocker text w.db (viewer env req.cred) repo (repo.name ++ "/" ++ i.imageName) = true

/-- The name and the image that it finds have the same rule, or the name has none that lets anybody in. -/
def SameImage (text : Text) (name : String) : Prop :=
  let repository := (parseRepositoryAndImage name).1
  imageRule text repository name = imageRule text repository (repository ++ "/" ++ (imageOf text name).2) ∨
    ∃ key e, imageRule text repository name = some (key, .error e)

section Sufficient
variable {env : Env} {fault : Step → Bool} {w w' : World} {cred : Credentials} {repo : Repository} {name : String}

theorem authenticate_pull {user : User} (h : authenticateAndAuthorize env cred repo name .pull w = .ok user) :
    user = viewer env cred ∧ canReadDocker env.text w.db user repo name = true := by
  unfold authenticateAndAuthorize at h
  unfold viewer
  split at h
  · cases h
  · dsimp only at h
    split at h
    · rename_i hok
      cases h
      rw [Bool.and_eq_true] at hok
      refine ⟨?_, ?_⟩
      · rename_i hbearer
        rw [hbearer]
      · simpa [allowed] using hok.2
    · cases h
  · rename_i hbearer
    split at h
    · cases h
    · split at h
      · rename_i hok
        cases h
        refine ⟨?_, ?_⟩
        · rw [hbearer]
        · simpa [allowed] using hok
      · split at h <;> cases h

theorem authorized_ok {α : Type} {k : Repository × User → Handler α} {r : α}
    (hrepo : env.getRepo (parseRepositoryAndImage name).1 = some repo)
    (h : Proc.exec fault ((authorized env cred name .pull).bind k) w = (.ok r, w')) :
    canReadDocker env.text w.db (viewer env cred) repo name = true := by
  obtain ⟨⟨repo', user⟩, w₁, hauth, -⟩ := Proc.exec_bind_ok h
  unfold authorized at hauth
  obtain ⟨repo'', hfound, hauth⟩ := Proc.exec_ofExcept_bind_ok hauth
  rw [orError_ok, hrepo] at hfound
  cases hfound
  obtain ⟨user', huser, -⟩ := Proc.exec_ask_bind_ok hauth
  obtain ⟨rfl, hread⟩ := authenticate_pull huser
  exact hread

theorem reads_ok {req : Request} {served : Served} (hreads : req.reads name)
    (hrepo : env.getRepo (parseRepositoryAndImage name).1 = some repo)
    (h : Proc.exec fault (handle env req) w = (.ok served, w')) :
    canReadDocker env.text w.db (viewer env req.cred) repo name = true := by
  cases req with
  | tagsList cred n last count =>
    cases hreads
    exact authorized_ok hrepo h
  | getManifest cred n reference upstream =>
    cases hreads
    obtain ⟨-, -, h⟩ := Proc.exec_ofExcept_bind_ok h
    exact authorized_ok hrepo h
  | getBlob cred n digest upstream =>
    cases hreads
    exact authorized_ok hrepo h
  | putManifest | postUpload | patchUpload | putUpload | getUploadStatus | deleteUpload | deleteManifest | deleteBlob |
      approve | deleteImage | deleteRepository
  | administer => cases hreads

end Sufficient

attribute [local irreducible] parseRepositoryAndImage trimSlash

theorem confined_of_sameImage {text : Text} {name : String} (h : SameImage text name) : Confined text name := by
  intro env fault w w' req served repo i htext hrepo hreads hi _ hexec _
  subst htext
  have hread := reads_ok hreads hrepo hexec
  have hname : repo.name = (parseRepositoryAndImage name).1 := by
    obtain ⟨config, -, rfl⟩ := Option.map_eq_some_iff.1 hrepo
    rfl
  have hkey : i.imageName = (imageOf env.text name).2 := by
    rw [← (Table.find?_eq_some.1 hi).2]
    rfl
  unfold SameImage at h
  rw [← hname, ← hkey] at h
  rcases h with h | ⟨key, e, h⟩
  · rw [← canReadDocker_congr h]
    exact hread
  · rw [canReadDocker_invalid h] at hread
    cases hread

/-! ### A name with another rule -/

section Necessary
variable (text : Text)

/-- A private image, and another one if the keys differ. -/
def closedImages (key other : Key) (team : String) : Table DockerImage.key :=
  if h : other = key then ⟨[⟨key.1, key.2, team, true, true⟩], by simp⟩
  else ⟨[⟨key.1, key.2, team, true, true⟩, ⟨other.1, other.2, "", true, true⟩], by
    rw [List.map_cons, List.map_cons, List.map_nil, List.nodup_cons]
    refine ⟨?_, by simp⟩
    rw [List.mem_singleton]
    exact fun he => h he.symm⟩

/-- Two private images without members; one has a tag and a manifest, and perhaps a team that everybody is in. -/
def closedDB (key other : Key) (team : String) (locks : Table LockRow.key) (tag : String) : DockerDB where
  images := closedImages key other team
  members := .empty
  teamRole pre _ := if pre = "team" then some 1 else none
  profile _ := none
  locks := locks
  captured := []
  tags := ⟨[⟨key.1, key.2, tag, "", "", 0⟩], by simp⟩
  manifests := ⟨[⟨key.1, key.2, dockerDigest text "", "", 0, "{}"⟩], by simp⟩
  imageBlobs := []
  blobs := .empty

def closedWorld (key other : Key) (team : String) (locks : Table LockRow.key) (tag : String) : World :=
  ⟨closedDB text key other team locks tag, [], [], [], []⟩

def closedEnv (visibility : Visibility) : Env :=
  ⟨text, "/", fun _ => some ⟨visibility, false, false⟩, fun _ => none, fun _ _ => none, fun _ => ""⟩

variable {text} {key other : Key} {team tag : String} {locks : Table LockRow.key}

theorem closedImages_key : (closedImages key other team).find? key = some ⟨key.1, key.2, team, true, true⟩ := by
  rw [Table.find?_eq_some]
  refine ⟨?_, rfl⟩
  unfold closedImages
  split <;> simp

theorem closedImages_other (h : other ≠ key) : (closedImages key other team).find? other = some ⟨other.1, other.2,
    "", true, true⟩ := by
  rw [Table.find?_eq_some]
  refine ⟨?_, rfl⟩
  unfold closedImages
  rw [dif_neg h]
  simp

theorem resourceLocksQuery_closed (h : locks.rows = []) :
    resourceLocksQuery (closedDB text key other team locks tag).lockDB .docker = [] := by
  unfold resourceLocksQuery
  simp [closedDB, DockerDB.lockDB, h]

theorem closed_access_key (other : Key) (team tag : String) (locks : Table LockRow.key) (username : String)
    {repository imageName : String} (hkey : sanitizeDockerKey text repository imageName = key) :
    (getDockerImageAccess text (closedDB text key other team locks tag) repository imageName username).present = true ∧
    (getDockerImageAccess text (closedDB text key other team locks tag) repository imageName username).isPrivate = true ∧
    (getDockerImageAccess text (closedDB text key other team locks tag) repository imageName username).member =
      decide (team = "team") := by
  unfold getDockerImageAccess
  simp only [hkey]
  have hi : (closedDB text key other team locks tag).images.find? key = some ⟨key.1, key.2, team, true, true⟩ :=
    closedImages_key
  rw [hi]
  refine ⟨rfl, rfl, ?_⟩
  by_cases ht : team = "team"
  · simp [closedDB, Table.find?, effectiveBoundPermission, ht]
  · simp [closedDB, Table.find?, effectiveBoundPermission, ht]

theorem closed_access (tag : String) (locks : Table LockRow.key) (username : String) {repository imageName : String}
    (hkey : sanitizeDockerKey text repository imageName = other) (hteam : other ≠ key ∨ team ≠ "team") :
    (getDockerImageAccess text (closedDB text key other team locks tag) repository imageName username).present = true ∧
    (getDockerImageAccess text (closedDB text key other team locks tag) repository imageName username).isPrivate = true ∧
    (getDockerImageAccess text (closedDB text key other team locks tag) repository imageName username).member = false := by
  by_cases he : other = key
  · obtain ⟨hpresent, hprivate, hmember⟩ :=
      closed_access_key other team tag locks username (hkey.trans he)
    refine ⟨hpresent, hprivate, ?_⟩
    rw [hmember]
    simpa [he] using hteam
  · unfold getDockerImageAccess
    simp only [hkey]
    have hi : (closedDB text key other team locks tag).images.find? other = some ⟨other.1, other.2, "", true, true⟩ :=
      closedImages_other he
    rw [hi]
    refine ⟨rfl, rfl, ?_⟩
    simp [closedDB, Table.find?, effectiveBoundPermission]

theorem dockerLocks_closed (h : locks.rows = []) {repository imageName digest : String} {t : LockTarget}
    (ht : normalizePackageTarget text .docker repository imageName digest = .ok t) :
    dockerLocks text (closedDB text key other team locks tag) repository imageName digest = .ok [] := by
  unfold dockerLocks getResourceLocks
  rw [ht, resourceLocksQuery_closed h]
  rfl

theorem canReadImage_outsider (repository : String) (h : locks.rows = []) {user : User} (hroles : user.roles = [])
    {repo : Repository} (hrepo : repo.name = repository)
    {imageName : String} (hkey : sanitizeDockerKey text repository imageName = other)
    (hteam : other ≠ key ∨ team ≠ "team") :
    canReadImage text (closedDB text key other team locks tag) user repo imageName = false := by
  subst hrepo
  obtain ⟨hpresent, hprivate, hmember⟩ :=
    closed_access tag locks user.username hkey hteam
  unfold canReadImage
  dsimp only
  cases hn : normalizePackageTarget text .docker repo.name imageName "" with
  | error e =>
    unfold dockerLocks getResourceLocks
    rw [hn]
    rfl
  | ok t =>
    rw [dockerLocks_closed h hn]
    simp [readLocked, hpresent, hprivate, hmember, User.isManager, User.checkUpdatePermission, User.hasRole, hroles]

theorem lt_push (s : String) : s < s ++ "x" := by
  show s.toList < (s ++ "x").toList
  rw [String.toList_append]
  induction s.toList with
  | nil => exact List.nil_lt_cons _ _
  | cons c cs ih => exact List.cons_lt_cons_self.2 ih

variable {name : String} {repository : String}

/-- A name without a slash is no image for the handler, but finds one. -/
theorem tagsList_served (other : Key) (team : String) (locks : Table LockRow.key) (user : User)
    (hrule : imageRule text (parseRepositoryAndImage name).1 name = none) (hroles : user.roles = [])
    (hlocks : locks.rows = []) :
    ∃ l, l ≠ [] ∧ Proc.exec (fun _ => false) (handle (closedEnv text .PUBLIC)
      (.tagsList ⟨user, none, true⟩ name "" 50))
      (closedWorld text (imageOf text name) other team locks (dockerTag text "" ++ "x")) =
        (.ok (.tags l), closedWorld text (imageOf text name) other team locks (dockerTag text "" ++ "x")) := by
  have hslash : '/' ∉ (trimSlash name).toList := by
    intro h
    rw [imageRule, if_pos h] at hrule
    cases hrule
  have hread : ∀ db repo, repo.visibility = .PUBLIC → canReadDocker text db user repo name = true := by
    intro db repo hpublic
    unfold canReadDocker canReadRepository
    rw [if_neg hslash, if_pos (.inl hpublic)]
  have hlist : ∀ username, listDockerTagsForViewer text
      (closedDB text (imageOf text name) other team locks (dockerTag text "" ++ "x")) (parseRepositoryAndImage name).1
      (parseRepositoryAndImage name).2 "" 50 username false ≠ [] := by
    intro username
    have hkey : sanitizeDockerKey text (parseRepositoryAndImage name).1 (parseRepositoryAndImage name).2 = imageOf text
      name := rfl
    unfold listDockerTagsForViewer
    simp only [hkey]
    have htag : tagVisible (closedDB text (imageOf text name) other team locks (dockerTag text "" ++ "x"))
        (viewerID text (closedDB text (imageOf text name) other team locks (dockerTag text "" ++ "x")).lockDB username)
        ⟨(imageOf text name).1, (imageOf text name).2, dockerTag text "" ++ "x", "", "", 0⟩ = true := by
      unfold tagVisible
      have hi : (closedDB text (imageOf text name) other team locks (dockerTag text "" ++ "x")).images.find?
          ((imageOf text name).1, (imageOf text name).2) = some _ := closedImages_key
      rw [resourceLocksQuery_closed hlocks, hi]
      simp
    have hrows : (closedDB text (imageOf text name) other team locks (dockerTag text "" ++ "x")).tags.rows =
        [⟨(imageOf text name).1, (imageOf text name).2, dockerTag text "" ++ "x", "", "", 0⟩] := rfl
    have hlast : decide (dockerTag text "" < dockerTag text "" ++ "x") = true := decide_eq_true (lt_push _)
    rw [hrows, List.filter_cons, htag, hlast, Bool.or_true, Bool.or_true]
    simp
  refine ⟨_, hlist user.username, ?_⟩
  have hmoderator : user.checkModeratePermission (parseRepositoryAndImage name).1 = false := by
    simp [User.checkModeratePermission, User.isManager, User.hasRole, hroles]
  simp [handle, handleTagsList, authorized, query, Proc.exec_bind, Proc.exec_ask, Env.getRepo, closedEnv,
    authenticateAndAuthorize, allowed, hread, hmoderator, closedWorld, orError, pure, Except.pure]

theorem getManifest_served (env : Env) (w : World) (db : DockerDB) (repo : Repository) {user : User} {ls : List ResourceLock}
    {t : DockerTag} {m : DockerManifest} (htext : env.text = text) (hdb : w.db = db)
    (hrepo : env.getRepo (parseRepositoryAndImage name).1 = some repo) (hname : name ≠ "")
    (hread : canReadDocker text db user repo name = true)
    (hlocks : dockerLocks text db repo.name (parseRepositoryAndImage name).2 "" = .ok ls) (hopen : readLocked ls = false)
    (ht : getDockerTag text db repo.name (parseRepositoryAndImage name).2 "latest" = some t) (hdigest : t.digest = "")
    (hm : getDockerManifest text db repo.name (parseRepositoryAndImage name).2 "" = some m) (hraw : m.rawJSON ≠ "") :
    Proc.exec (fun _ => false) (handle env (.getManifest ⟨user, none, true⟩ name "latest" .missing)) w =
      (.ok (.manifest m.rawJSON (if t.mediaType = "" then m.mediaType else t.mediaType) ""), w) := by
  have hreference : Storage.hasPrefix "latest" "sha256:" = false := by decide
  simp [handle, handleGetManifest, authorized, query, Proc.exec_bind, Proc.exec_ask, hrepo, authenticateAndAuthorize,
    allowed, hread, orError, pure, Except.pure, require, hname, hreference, ht, hdigest, serveManifest, manifestLocks,
    hlocks, hopen, hm, hraw, bind, Except.bind, htext, hdb]

theorem dockerTarget_ok {version : String} {t : LockTarget}
    (h : normalizePackageTarget text .docker repository name version = .ok t) :
    t.repository = text.toLower (text.trimSpace repository) ∧ t.version = text.toLower version := by
  obtain ⟨⟨r, k⟩, hbound, h⟩ := bind_ok.1 h
  obtain ⟨-, hbound⟩ := require_bind_ok.1 hbound
  cases hbound
  obtain ⟨-, -, h⟩ := bind_ok.1 h
  cases h
  exact ⟨rfl, rfl⟩

/-- The one lock that is needed here. -/
def readLock (t : LockTarget) : LockRow := ⟨⟨.package .docker, t.repository, t.name, ""⟩, .manual, .read,
    .trojan, "", 1⟩

def lockTable (t : LockTarget) : Table LockRow.key := ⟨[readLock t], by simp⟩

theorem resourceLocksQuery_lock {t : LockTarget} (h : locks.rows = [readLock t]) :
    resourceLocksQuery (closedDB text key other team locks tag).lockDB .docker = [(readLock t).lock false] := by
  unfold resourceLocksQuery
  simp [closedDB, DockerDB.lockDB, h, readLock]

theorem dockerLocks_lock {t u : LockTarget} (h : locks.rows = [readLock t]) {imageName digest : String}
    (hu : normalizePackageTarget text .docker repository imageName digest = .ok u) :
    dockerLocks text (closedDB text key other team locks tag) repository imageName digest =
      .ok (if t.repository = u.repository ∧ t.name = u.name then [(readLock t).lock false] else []) := by
  have hformat := (normalizePackageTarget_ok hu).1
  unfold dockerLocks getResourceLocks
  rw [hu, resourceLocksQuery_lock h]
  show Except.ok (List.insertionSort _ (List.filter _ _)) = _
  have hv : (LockRow.lock (readLock t) false).target.version = "" := rfl
  have hf : (LockRow.lock (readLock t) false).target.format = u.format := by
    rw [hformat]
    rfl
  by_cases ht : t.repository = u.repository ∧ t.name = u.name
  · rw [if_pos ht, List.filter_cons_of_pos, List.filter_nil]
    · rfl
    · have hr : (LockRow.lock (readLock t) false).target.repository = u.repository := ht.1
      have hn : (LockRow.lock (readLock t) false).target.name = u.name := ht.2
      simp [hv, hf, hr, hn]
  · rw [if_neg ht, List.filter_cons_of_neg, List.filter_nil]
    · rfl
    · intro hall
      simp only [Bool.and_eq_true, decide_eq_true_eq] at hall
      exact ht ⟨hall.1.1.2, hall.1.2⟩

theorem closed_tag : getDockerTag text (closedDB text (imageOf text name) other team locks (dockerTag text "latest"))
    (parseRepositoryAndImage name).1 (parseRepositoryAndImage name).2 "latest" =
      some ⟨(imageOf text name).1, (imageOf text name).2, dockerTag text "latest", "", "", 0⟩ := by
  unfold getDockerTag
  rw [Table.find?_eq_some]
  exact ⟨by simp [closedDB], rfl⟩

theorem closed_manifest : getDockerManifest text (closedDB text (imageOf text name) other team locks tag)
    (parseRepositoryAndImage name).1 (parseRepositoryAndImage name).2 "" =
      some ⟨(imageOf text name).1, (imageOf text name).2, dockerDigest text "", "", 0, "{}"⟩ := by
  unfold getDockerManifest
  rw [Table.find?_eq_some]
  exact ⟨by simp [closedDB], rfl⟩

theorem not_confined (visibility : Visibility) (user : User) {ls : List ResourceLock} (hname : name ≠ "")
    (hread : canReadDocker text (closedDB text (imageOf text name) other team locks (dockerTag text "latest")) user
      ⟨⟨visibility, false, false⟩, (parseRepositoryAndImage name).1⟩ name = true)
    (hlocks : dockerLocks text (closedDB text (imageOf text name) other team locks (dockerTag text "latest"))
      (parseRepositoryAndImage name).1 (parseRepositoryAndImage name).2 "" = .ok ls) (hopen : readLocked ls = false)
    (hdenied : canReadDocker text (closedDB text (imageOf text name) other team locks (dockerTag text "latest")) user
      ⟨⟨visibility, false, false⟩, (parseRepositoryAndImage name).1⟩
      ((parseRepositoryAndImage name).1 ++ "/" ++ (imageOf text name).2) = false) : ¬Confined text name := by
  intro h
  have hserved := getManifest_served (closedEnv text visibility)
    (closedWorld text (imageOf text name) other team locks (dockerTag text "latest"))
    (closedDB text (imageOf text name) other team locks (dockerTag text "latest"))
    ⟨⟨visibility, false, false⟩, (parseRepositoryAndImage name).1⟩ rfl rfl rfl hname hread hlocks hopen closed_tag rfl
    closed_manifest (show "{}" ≠ "" by decide)
  have hallowed := h (closedEnv text visibility) (fun _ => false) (closedWorld text (imageOf text name) other team locks
    (dockerTag text "latest")) _ (.getManifest ⟨user, none, true⟩ name "latest" .missing) _
    ⟨⟨visibility, false, false⟩, (parseRepositoryAndImage name).1⟩ ⟨(imageOf text name).1,
      (imageOf text name).2, team, true, true⟩
    rfl rfl rfl closedImages_key (.inl rfl) hserved trivial
  have hallowed : canReadDocker text (closedDB text (imageOf text name) other team locks (dockerTag text "latest")) user
      ⟨⟨visibility, false, false⟩, (parseRepositoryAndImage name).1⟩
      ((parseRepositoryAndImage name).1 ++ "/" ++ (imageOf text name).2) = true := hallowed
  rw [hdenied] at hallowed
  cases hallowed

theorem canReadDocker_team (repository : String) (hlocks : locks.rows = []) {repo : Repository}
    (hrepo : repo.name = repository) (hvisibility : repo.visibility = .other) {path : String}
    (hrule : ∀ t, imageRule text repository path ≠ some (key, .ok t))
    (hother : ∀ k x, imageRule text repository path = some (k, x) → k = other) :
    canReadDocker text (closedDB text key other "team" locks tag) ⟨"", []⟩ repo path = false := by
  subst hrepo
  unfold canReadDocker
  by_cases hslash : '/' ∈ (trimSlash path).toList
  · have hpath : imageRule text repo.name path = some (sanitizeDockerKey text repo.name (parseRepositoryAndImage path).2,
        normalizePackageTarget text .docker repo.name (parseRepositoryAndImage path).2 "") := if_pos hslash
    rw [if_pos hslash]
    have hkey := hother _ _ hpath
    cases hn : normalizePackageTarget text .docker repo.name (parseRepositoryAndImage path).2 "" with
    | error e =>
      unfold canReadImage dockerLocks getResourceLocks
      rw [hn]
      rfl
    | ok t =>
      refine canReadImage_outsider _ hlocks rfl rfl hkey (.inl fun he => ?_)
      exact hrule t (by rw [hpath, hn, hkey, he])
  · rw [if_neg hslash]
    simp [canReadRepository, hvisibility, User.checkReadPermission]

theorem canReadImage_team (repository : String) (hlocks : locks.rows = []) {user : User} {repo : Repository}
    (hrepo : repo.name = repository)
    {imageName : String} {t : LockTarget} (hkey : sanitizeDockerKey text repository imageName = key)
    (ht : normalizePackageTarget text .docker repository imageName "" = .ok t) :
    canReadImage text (closedDB text key other "team" locks tag) user repo imageName = true := by
  subst hrepo
  obtain ⟨hpresent, hprivate, hmember⟩ :=
    closed_access_key other "team" tag locks user.username hkey
  unfold canReadImage
  dsimp only
  rw [dockerLocks_closed hlocks ht]
  simp [readLocked, hpresent, hprivate, hmember]

theorem canReadImage_lock (repository : String) {t u : LockTarget} (h : locks.rows = [readLock t]) (hteam : team ≠ "team")
    {repo : Repository} (hrepo : repo.name = repository) {imageName : String}
    (hkey : sanitizeDockerKey text repository imageName = key)
    (hu : normalizePackageTarget text .docker repository imageName "" = .ok u) :
    canReadImage text (closedDB text key key team locks tag) ⟨"", ["canupdate:*"]⟩ repo imageName =
      !decide (t.repository = u.repository ∧ t.name = u.name) := by
  subst hrepo
  obtain ⟨hpresent, hprivate, hmember⟩ :=
    closed_access_key key team tag locks "" hkey
  have hmoderate : User.checkModeratePermission ⟨"", ["canupdate:*"]⟩ repo.name = false := by
    have hrole : "canmoderate:" ++ repo.name ≠ "canupdate:*" := by
      intro he
      have hchars := congrArg String.toList he
      rw [String.toList_append] at hchars
      simp at hchars
    simp [User.checkModeratePermission, User.isManager, User.hasRole, hrole]
  unfold canReadImage
  dsimp only
  rw [dockerLocks_lock h hu]
  by_cases ht : t.repository = u.repository ∧ t.name = u.name
  · simp [ht, readLocked, readLock, LockRow.lock, hmember, hteam, hmoderate]
  · simp [ht, readLocked, hpresent, hprivate, hmember, User.checkUpdatePermission, User.hasRole]

theorem lock_overlooked {t u : LockTarget} (hname : name ≠ "") (hslash : '/' ∈ (trimSlash name).toList)
    (ht : normalizePackageTarget text .docker (parseRepositoryAndImage name).1 (parseRepositoryAndImage name).2 "" = .ok t)
    (hu : imageRule text (parseRepositoryAndImage name).1 ((parseRepositoryAndImage name).1 ++ "/" ++ (imageOf text name).2) =
      some (imageOf text name, .ok u)) (hother : ¬(u.repository = t.repository ∧ u.name = t.name)) : ¬Confined text
        name := by
  have hlocks : dockerLocks text (closedDB text (imageOf text name) (imageOf text name) "" (lockTable u)
    (dockerTag text "latest")) (parseRepositoryAndImage name).1 (parseRepositoryAndImage name).2 "" = .ok [] := by
    rw [dockerLocks_lock rfl ht, if_neg hother]
  refine not_confined .other ⟨"", ["canupdate:*"]⟩ hname ?_ hlocks rfl ?_
  · unfold canReadDocker
    rw [if_pos hslash]
    refine (canReadImage_lock (parseRepositoryAndImage name).1 rfl (by decide) rfl rfl ht).trans ?_
    rw [Bool.not_eq_true', decide_eq_false_iff_not]
    exact hother
  · unfold imageRule at hu
    split at hu
    · rename_i hslash'
      obtain ⟨hkey, hu⟩ := Prod.mk.inj (Option.some_inj.1 hu)
      unfold canReadDocker
      rw [if_pos hslash']
      refine (canReadImage_lock (parseRepositoryAndImage name).1 rfl (by decide) rfl hkey hu).trans ?_
      simp
    · cases hu

theorem member_let_in {t : LockTarget} (hname : name ≠ "") (hslash : '/' ∈ (trimSlash name).toList)
    (ht : normalizePackageTarget text .docker (parseRepositoryAndImage name).1 (parseRepositoryAndImage name).2 "" = .ok t)
    (hrule : ∀ u, imageRule text (parseRepositoryAndImage name).1
      ((parseRepositoryAndImage name).1 ++ "/" ++ (imageOf text name).2) ≠
      some (imageOf text name, .ok u)) : ¬Confined text name := by
  obtain ⟨other, hother⟩ : ∃ other, ∀ k x, imageRule text (parseRepositoryAndImage name).1
      ((parseRepositoryAndImage name).1 ++ "/" ++ (imageOf text name).2) = some (k, x) → k = other := by
    cases imageRule text (parseRepositoryAndImage name).1
      ((parseRepositoryAndImage name).1 ++ "/" ++ (imageOf text name).2) with
    | none => exact ⟨("", ""), nofun⟩
    | some r =>
      refine ⟨r.1, fun k x hx => ?_⟩
      cases hx
      rfl
  have hlocks : dockerLocks text (closedDB text (imageOf text name) other "team" .empty (dockerTag text "latest"))
      (parseRepositoryAndImage name).1 (parseRepositoryAndImage name).2 "" = .ok [] := dockerLocks_closed rfl ht
  refine not_confined .other ⟨"", []⟩ hname ?_ hlocks rfl ?_
  · unfold canReadDocker
    rw [if_pos hslash]
    exact canReadImage_team (parseRepositoryAndImage name).1 rfl rfl rfl ht
  · exact canReadDocker_team (parseRepositoryAndImage name).1 rfl rfl rfl hrule hother

theorem repository_listed {other : Key} {x : Except LockError LockTarget}
    (hname : imageRule text (parseRepositoryAndImage name).1 name = none)
    (hrule : imageRule text (parseRepositoryAndImage name).1
      ((parseRepositoryAndImage name).1 ++ "/" ++ (imageOf text name).2) = some (other, x)) : ¬Confined text name := by
  intro h
  obtain ⟨l, hl, hexec⟩ := tagsList_served other "" .empty ⟨"", []⟩ hname rfl rfl
  have hallowed := h (closedEnv text .PUBLIC) _ _ _ (.tagsList ⟨⟨"", []⟩, none, true⟩ name "" 50) _
    ⟨⟨.PUBLIC, false, false⟩, (parseRepositoryAndImage name).1⟩ _ rfl rfl rfl closedImages_key (.inl rfl) hexec hl
  have hallowed : canReadDocker text (closedDB text (imageOf text name) other "" .empty (dockerTag text "" ++ "x"))
    ⟨"", []⟩ ⟨⟨.PUBLIC, false, false⟩, (parseRepositoryAndImage name).1⟩
      ((parseRepositoryAndImage name).1 ++ "/" ++ (imageOf text name).2) = true := hallowed
  unfold imageRule at hrule
  split at hrule
  · rename_i hslash
    obtain ⟨hkey, -⟩ := Prod.mk.inj (Option.some_inj.1 hrule)
    rw [canReadDocker, if_pos hslash, canReadImage_outsider (parseRepositoryAndImage name).1 rfl rfl rfl hkey
      (.inr (by decide))] at hallowed
    cases hallowed
  · cases hrule

theorem sameImage_of_confined (h : Confined text name) : SameImage text name := by
  by_contra hne
  unfold SameImage at hne
  rw [not_or, not_exists] at hne
  obtain ⟨hdiff, hvalid⟩ := hne
  cases hR : imageRule text (parseRepositoryAndImage name).1 name with
  | none =>
    rw [hR] at hdiff
    cases hR' : imageRule text (parseRepositoryAndImage name).1
      ((parseRepositoryAndImage name).1 ++ "/" ++ (imageOf text name).2) with
    | none => exact hdiff hR'.symm
    | some r => exact repository_listed hR hR' h
  | some r =>
    obtain ⟨k, x⟩ := r
    cases x with
    | error e => exact hvalid k ⟨e, hR⟩
    | ok t =>
      have hslash : '/' ∈ (trimSlash name).toList := by
        by_contra hno
        rw [imageRule, if_neg hno] at hR
        cases hR
      have hname : name ≠ "" := by
        rintro rfl
        exact absurd hslash (by decide +kernel)
      have hrule := hR
      rw [imageRule, if_pos hslash] at hrule
      obtain ⟨rfl, ht⟩ := Prod.mk.inj (Option.some_inj.1 hrule)
      by_cases hsame : ∃ u, imageRule text (parseRepositoryAndImage name).1
          ((parseRepositoryAndImage name).1 ++ "/" ++ (imageOf text name).2) = some (imageOf text name, .ok u)
      · obtain ⟨u, hu⟩ := hsame
        refine lock_overlooked hname hslash ht hu ?_ h
        -- two targets of one repository that differ have different names
        rintro ⟨hrepository, htarget⟩
        refine hdiff (hR.trans (Eq.trans ?_ hu.symm))
        unfold imageRule at hu
        split at hu
        · obtain ⟨-, hu⟩ := Prod.mk.inj (Option.some_inj.1 hu)
          have hformat := (normalizePackageTarget_ok ht).1.trans (normalizePackageTarget_ok hu).1.symm
          have hversion := (dockerTarget_ok ht).2.trans (dockerTarget_ok hu).2.symm
          cases t
          cases u
          cases hformat
          cases hversion
          cases hrepository
          cases htarget
          rfl
        · cases hu
      · exact member_let_in hname hslash ht (fun u hu => hsame ⟨u, hu⟩) h

end Necessary

/-- A name keeps a private image, or one with a read lock, from those who cannot read it if and only if the name and the
image have the same rule. -/
theorem private_under_name (text : Text) (name : String) : Confined text name ↔ SameImage text name :=
  ⟨sameImage_of_confined, confined_of_sameImage⟩

/-- The guest of a public repository, and its private image `app`. -/
def guest : Credentials := ⟨⟨"guest", []⟩, none, true⟩

def appDB : DockerDB where
  images := ⟨[⟨"app", "app", "", true, true⟩], by simp⟩
  members := .empty
  teamRole _ _ := none
  profile _ := none
  locks := .empty
  captured := []
  tags := ⟨[⟨"app", "app", "v1", "sha256:1", "", 0⟩], by simp⟩
  manifests := .empty
  imageBlobs := []
  blobs := .empty

def appEnv : Env :=
  ⟨asciiText, "/srv", fun repository => if repository = "app" then some ⟨.PUBLIC, false, false⟩ else none,
    fun _ => none, fun _ _ => none, fun _ => ""⟩

/-- `GET /v2/app/tags/list` tells a guest the tags of the private image `app/app`. -/
theorem private_listed :
    dispatch "/v2/app/tags/list" = some (.tagsList "app") ∧
      (Proc.exec (fun _ => false) (handle appEnv (.tagsList guest "app" "" 50)) ⟨appDB, [], [], [], []⟩).1 =
        .ok (.tags [⟨"app", "app", "v1", "sha256:1", "", 0⟩]) ∧
      (appDB.images.find? (imageOf asciiText "app")).map (·.isPrivate) = some true ∧
      canReadDocker asciiText appDB ⟨"guest", []⟩ ⟨⟨.PUBLIC, false, false⟩, "app"⟩ "app/app" = false ∧
      ¬Confined asciiText "app" := by
  refine ⟨by decide +kernel, by decide +kernel, by decide +kernel, by decide +kernel, fun h => ?_⟩
  have hrule : imageRule asciiText (parseRepositoryAndImage "app").1 "app" = none := by decide +kernel
  have hpath : imageRule asciiText (parseRepositoryAndImage "app").1
      ((parseRepositoryAndImage "app").1 ++ "/" ++ (imageOf asciiText "app").2) ≠ none := by decide +kernel
  rcases sameImage_of_confined h with hsame | ⟨key, e, hsame⟩
  · exact hpath (hsame.symm.trans hrule)
  · cases hrule.symm.trans hsame

end Renop.Docker
