import Renop.Docker

/-!
# The Docker registry

The handlers of `/v2` and the approval of a reviewed manifest (`handler.go`, `publication_review.go`). A handler is a
program of calls to the database and the store, so requests interleave between any two of them. A call that only
refuses for a reason outside (a quota, a deprecation, the rights of a reviewer) does so by its verdict.

`origins` is written by no handler: it keeps how a blob came to an image, for what is proved about it.
-/

namespace Renop.Docker

open Sql Interleave
open Renop.Locks (readLocked)
open Renop.SuperTeam (Text)
open Renop.Cargo (Key sanitized)

/-! ### The state -/

/-- `ParsedManifest` -/
structure ParsedManifest where
  digest : String
  mediaType : String
  configDigest : String
  size : Int
  layers : List String
  isIndex : Bool
deriving DecidableEq, Repr

def referencedBlobDigests (m : ParsedManifest) : List String :=
  if m.isIndex then [] else (m.configDigest :: m.layers).filter (· ≠ "")

/-- What the handlers get from elsewhere: the configuration, the tokens, JSON and SHA-256. -/
structure Env where
  text : Text
  storagePath : String
  /-- The repositories of the Docker format, by name. -/
  repos : String → Option RepositoryConfig
  /-- `GetTokenByName` -/
  tokenRoles : String → Option (List String)
  parseManifest : String → String → Option ParsedManifest
  calculateDigest : String → String

def Env.getRepo (env : Env) (repoName : String) : Option Repository := (env.repos repoName).map fun config =>
    { config with name := repoName }

structure Payload where
  repository : String
  imageName : String
  reference : String
  parsed : ParsedManifest
  rawJSON : String
deriving DecidableEq, Repr

structure ReviewTask where
  id : Nat
  repository : String
  resourceKey : String
  resourceVersion : String
  requestedBy : String
  pending : Bool
  payload : Payload
deriving DecidableEq, Repr

/-- How a blob came to an image, the last one first. -/
inductive Origin
  /-- Uploaded at once, or by a session. -/
  | uploaded (image : Key) (digest : String) (session : Option String)
  /-- The tables when a mount asked for its source. -/
  | asked (db : DockerDB) (user : User) (source : Repository) (path : String)
  | mounted (image : Key) (digest : String) (user : User) (source : Repository) (path : String)
  | cached (image : Key) (digest : String)

structure World where
  db : DockerDB
  /-- Contents by path. -/
  files : List (String × String)
  /-- The directories that there are. -/
  dirs : List String
  tasks : List ReviewTask
  origins : List Origin

def World.file (w : World) (path : String) : Option String := (w.files.find? fun f => f.1 = path).map (·.2)

def World.writeFile (w : World) (path content : String) : World :=
  { w with files := (path, content) :: w.files.filter fun f => f.1 ≠ path }

/-- `filepath.Dir` of a clean path. -/
def parentDir (path : String) : String := (Index.splitPathParentBase path).1

/-- `os.MkdirAll` -/
def World.mkdirAll (w : World) (dir : String) : World :=
  { w with dirs := (dir.toList.inits.filter fun q => q = dir.toList || (dir.toList.drop q.length).head? =
    some '/').map String.ofList ++ w.dirs }

/-- `os.OpenFile` with `O_CREATE` succeeds. -/
def World.opens (w : World) (path : String) : Bool := parentDir path ∈ w.dirs && path ∉ w.dirs

def World.removeFile (w : World) (path : String) : World := { w with files := w.files.filter fun f => f.1 ≠ path }

section Files
variable (w : World) (path content : String)

@[simp] theorem World.writeFile_origins : (w.writeFile path content).origins = w.origins := rfl

@[simp] theorem World.removeFile_origins : (w.removeFile path).origins = w.origins := rfl

@[simp] theorem World.mkdirAll_db : (w.mkdirAll path).db = w.db := rfl

@[simp] theorem World.mkdirAll_origins : (w.mkdirAll path).origins = w.origins := rfl

theorem World.file_writeFile (p : String) : (w.writeFile path content).file p = if p = path then some content else
    w.file p := by
  unfold World.file World.writeFile
  rw [List.find?_cons]
  split
  · rename_i h
    rw [if_pos (of_decide_eq_true h).symm]
    rfl
  · rename_i h
    rw [if_neg fun hp => of_decide_eq_false h hp.symm, List.find?_filter]
    congr 2
    funext f
    by_cases hf : f.1 = p
    · have hne : f.1 ≠ path := fun hpath => of_decide_eq_false h (hpath.symm.trans hf)
      simp [hf]
      exact fun hp => hne (hf.trans hp)
    · simp [hf]

theorem World.file_removeFile (p : String) : (w.removeFile path).file p = if p = path then none else w.file p := by
  unfold World.file World.removeFile
  rw [List.find?_filter]
  split
  · rename_i h
    subst h
    rw [List.find?_eq_none.2, Option.map_none]
    intro f _ hf
    simp at hf
  · rename_i h
    congr 2
    funext f
    by_cases hf : f.1 = p
    · simp [hf, h]
    · simp [hf]

end Files

/-- The calls whose arguments matter later; the rest reads or writes. -/
inductive Step
  | query
  | write
  /-- The link of a finished upload session. -/
  | linkUpload (session : Option String)
  /-- A pushed manifest, with the image and the digests of its blobs. -/
  | putManifest (image : Key) (digests : List String)

abbrev Handler (α : Type) : Type := Proc World Step DockerError α

inductive Served
  | tags (tags : List DockerTag)
  | manifest (raw mediaType digest : String)
  /-- A file of the blob store. -/
  | localBlob (content : String)
  /-- Sent on from a mirror. -/
  | upstream
  | created
  | accepted
  | noContent
deriving DecidableEq, Repr

/-! ### Paths -/

section Paths
variable (env : Env)

/-- `cleanDigestHash`: what follows the colon. -/
def cleanDigestHash (digest : String) : String :=
  let digest := env.text.trimSpace digest
  env.text.toLower (match cut [':'] digest.toList with
    | some (_, hash) => String.ofList hash
    | none => digest)

def blobPath (repository digest : String) : String :=
  Index.pathClean (env.storagePath ++ "/" ++ repository ++ "/blobs/sha256/" ++ cleanDigestHash env digest)

def stagingPath (repository uploadUUID : String) : String :=
  Index.pathClean (env.storagePath ++ "/" ++ repository ++ "/.renop.tmp.docker/" ++ uploadUUID)

def manifestPath (repository imageName digest : String) : String :=
  Index.pathClean (env.storagePath ++ "/" ++ repository ++ "/manifests/" ++ imageName ++ "/" ++ cleanDigestHash env digest)

end Paths

/-! ### Calls -/

section Calls
variable (env : Env) {α : Type}

def query (f : World → Except DockerError α) : Handler α := Proc.ask .query .unavailable f

def write (f : World → Except DockerError World) : Handler Unit := Proc.tell .write .unavailable f

/-- A check whose outcome is not modelled: it refuses by its verdict. -/
def permitted : Handler Unit := query fun _ => pure ()

def World.with (w : World) (db : Except DockerError DockerDB) : Except DockerError World := db.map fun db => { w with db }

inductive Action
  | pull
  | push
  | delete
deriving DecidableEq, Repr

def Action.name : Action → String
  | pull => "pull"
  | push => "push"
  | delete => "delete"

structure Claims where
  subject : String
  /-- Names with the actions that they are granted. -/
  access : List (String × List String)
deriving DecidableEq, Repr

/-- Who sends a request. -/
structure Credentials where
  user : User
  /-- The claims of a bearer token, if they are valid. -/
  bearer : Option (Option Claims)
  /-- `CurrentCredentialHasScopeTarget` -/
  scope : Bool
deriving DecidableEq, Repr

def allowed (w : World) (user : User) (repo : Repository) (repoFullName : String) (action : Action) : Bool :=
  if action = .pull then canReadDocker env.text w.db user repo repoFullName
  else canWriteDocker env.text w.db user repo repoFullName

/-- `authenticateAndAuthorize` -/
def authenticateAndAuthorize (cred : Credentials) (repo : Repository) (repoFullName : String) (action : Action) (w : World) :
    Except DockerError User :=
  match cred.bearer with
  | some none => .error .unauthorized
  | some (some claims) =>
    let user : User := ⟨claims.subject, (env.tokenRoles claims.subject).getD []⟩
    let hasAccess := claims.access.any fun entry => (entry.1 = repoFullName || entry.1 = "*") &&
      entry.2.any fun a => a = action.name || a = "*"
    if hasAccess && allowed env w user repo repoFullName action then .ok user else .error .denied
  | none =>
    if cred.scope = false then .error .denied
    else if allowed env w cred.user repo repoFullName action then .ok cred.user
    else if cred.user.username = "guest" then .error .unauthorized
    else .error .denied

/-- The repository of a name, and who may do there what the request asks for. -/
def authorized (cred : Credentials) (name : String) (action : Action) : Handler (Repository × User) := do
  let repo ← Proc.ofExcept (orError (env.getRepo (parseRepositoryAndImage name).1) .nameUnknown)
  let user ← query (authenticateAndAuthorize env cred repo name action)
  pure (repo, user)

/-- `mutateImage`: the image is not locked; a deprecated one is refused by the verdict. -/
def mutateImage (name : String) (handler : Handler Served) : Handler Served := do
  let (repository, image) := parseRepositoryAndImage name
  if repository = "" ∨ image = "" then handler
  else
    query fun w => ensureResourceMutable env.text w.db repository image "" false
    handler

end Calls

/-! ### Reading -/

section Read
variable (env : Env)

def handleTagsList (cred : Credentials) (name last : String) (n : Int) : Handler Served := do
  let (repoName, imageName) := parseRepositoryAndImage name
  let (_, user) ← authorized env cred name .pull
  let tags ← query fun w => pure (listDockerTagsForViewer env.text w.db repoName imageName last n user.username
    (user.checkModeratePermission repoName))
  pure (.tags tags)

/-- `FetchUpstreamManifest` -/
inductive Upstream
  | missing
  | invalid
  | found (raw mediaType digest : String)
deriving DecidableEq, Repr

/-- `ManifestLocks`, which hides a locked manifest from those who are neither members nor moderators. -/
def manifestLocks (user : User) (repository image digest : String) (w : World) : Except DockerError Bool := do
  let locks ← dockerLocks env.text w.db repository image digest
  require (readLocked locks = false ∨ user.checkModeratePermission repository = true ∨
    (getDockerImageAccess env.text w.db repository image user.username).member = true) .manifestUnknown
  pure (locks ≠ [])

/-- The links that the cache of a mirror writes. -/
def cachedOrigins (m : ManifestWrite) : List Origin :=
  ((m.blobDigests.map (dockerDigest env.text)).filter (· ≠ "")).map fun digest =>
    .cached (sanitizeDockerKey env.text m.repository m.imageName) digest

/-- `CacheDockerManifest` -/
def cacheDockerManifest (m : ManifestWrite) (tag : String) : Handler Unit :=
  write fun w => (putDockerManifest env.text w.db m tag "mirror" true).map fun db =>
    { w with db, origins := cachedOrigins env m ++ w.origins }

def manifestWrite (repository imageName raw : String) (parsed : ParsedManifest) (digest mediaType : String) : ManifestWrite :=
  ⟨repository, imageName, digest, mediaType, parsed.size, parsed.configDigest, referencedBlobDigests parsed, raw⟩

/-- A tag that is not known here: a mirror may have it. -/
def cacheUpstreamManifest (repo : Repository) (imageName reference : String) (access : Access) (upstream : Upstream) :
    Handler Served := do
  Proc.ofExcept (require (¬ (access.present = true ∧ access.pushEnabled = true)) .manifestUnknown)
  query fun w => ensureResourceMutable env.text w.db repo.name imageName "" false
  match upstream with
  | .missing => Proc.throw .manifestUnknown
  | .invalid => Proc.throw .badGateway
  | .found raw mediaType digest =>
    query fun w => ensureDockerManifestMutable env.text w.db repo.name imageName digest reference
    let parsed ← Proc.ofExcept (orError (env.parseManifest raw mediaType) .badGateway)
    cacheDockerManifest env (manifestWrite repo.name imageName raw parsed digest mediaType) reference
    if repo.persist then
      let _ ← Proc.attempt (write fun w => pure (w.writeFile (manifestPath env repo.name imageName digest) raw))
    pure .upstream

/-- `OpenManifest` -/
def openManifest (repository imageName digest : String) (w : World) : Except DockerError (Option String) :=
  match w.file (manifestPath env repository imageName digest) with
  | none => pure none
  | some raw => do
    require (env.calculateDigest raw = env.text.trimSpace digest) .unavailable
    pure (some raw)

/-- A manifest of the table, of the store or of a mirror. -/
def serveManifest (repo : Repository) (user : User) (imageName digest mediaType : String) (access : Access)
    (upstream : Upstream) : Handler Served := do
  let locked ← query (manifestLocks env user repo.name imageName digest)
  match ← query fun w => pure (getDockerManifest env.text w.db repo.name imageName digest) with
  | some m =>
    let mediaType := if mediaType = "" then m.mediaType else mediaType
    if m.rawJSON ≠ "" then pure (.manifest m.rawJSON mediaType digest)
    else
      let raw ← query (openManifest env repo.name imageName digest)
      pure (.manifest (raw.getD "") mediaType digest)
  | none =>
    Proc.ofExcept (require (¬ (access.present = true ∧ access.pushEnabled = true)) .manifestUnknown)
    match ← query (openManifest env repo.name imageName digest) with
    | some raw => pure (.manifest raw mediaType digest)
    | none =>
      Proc.ofExcept (require (locked = false) .manifestUnknown)
      match upstream with
      | .missing => Proc.throw .manifestUnknown
      | .invalid => Proc.throw .badGateway
      | .found .. => pure .upstream

def handleGetManifest (cred : Credentials) (name reference : String) (upstream : Upstream) : Handler Served := do
  Proc.ofExcept (require (name ≠ "" ∧ reference ≠ "") .manifestInvalid)
  let imageName := (parseRepositoryAndImage name).2
  let (repo, user) ← authorized env cred name .pull
  let access ← query fun w => pure (getDockerImageAccess env.text w.db repo.name imageName "")
  if Storage.hasPrefix reference "sha256:" = true then serveManifest env repo user imageName reference "" access upstream
  else
    match ← query fun w => pure (getDockerTag env.text w.db repo.name imageName reference) with
    | some tag => serveManifest env repo user imageName tag.digest tag.mediaType access upstream
    | none => cacheUpstreamManifest env repo imageName reference access upstream

/-- `CommitBlob` of a content that was not staged here before. -/
def commitContent (repository digest content : String) (w : World) : Except DockerError World := do
  ensureDockerBlobMutable w.db repository digest
  require (env.calculateDigest content = digest) .uploadInvalid
  let path := blobPath env repository digest
  pure ((w.mkdirAll (parentDir path)).writeFile path content)

/-- A blob of a mirror is kept if that is configured and nothing locks it. -/
def cacheBlob (repo : Repository) (digest content : String) : Handler Unit := do
  if repo.persist then
    let unlocked ← Proc.attempt (query fun w => ensureDockerBlobMutable w.db repo.name digest)
    match unlocked with
    | .error e => Proc.ofExcept (require (e = .resourceLocked) e)
    | .ok _ =>
      match ← Proc.attempt (write (commitContent env repo.name digest content)) with
      | .error _ => pure ()
      | .ok _ =>
        let _ ← Proc.attempt (write fun w => w.with (recordDockerBlob env.text w.db repo.name digest content.utf8ByteSize))

def handleGetBlob (cred : Credentials) (name digest : String) (upstream : Option String) : Handler Served := do
  let imageName := (parseRepositoryAndImage name).2
  let (repo, _) ← authorized env cred name .pull
  let locks ← query fun w => dockerLocks env.text w.db repo.name imageName digest
  Proc.ofExcept (require (readLocked locks = false) .blobUnknown)
  let access ← query fun w => pure (getDockerImageAccess env.text w.db repo.name imageName "")
  let allowLocalBlob ←
    if access.present then do
      let linked ← query fun w => pure (dockerImageReferencesBlob env.text w.db repo.name imageName digest)
      Proc.ofExcept (require (linked = true) .blobUnknown)
      pure true
    else pure false
  let content ← if allowLocalBlob then query fun w => pure (w.file (blobPath env repo.name digest)) else pure none
  match content with
  | some content => pure (.localBlob content)
  | none =>
    Proc.ofExcept (require (locks = []) .blobUnknown)
    let content ← Proc.ofExcept (orError upstream .blobUnknown)
    cacheBlob env repo digest content
    pure .upstream

/-- What `HandleGetBlob` answers, for the content that the store gave. -/
def serveBlob (repo : Repository) (digest : String) (upstream : Option String) (locks : List Locks.ResourceLock) :
    Option String → Handler Served
  | some content => pure (.localBlob content)
  | none => do
    Proc.ofExcept (require (locks = []) .blobUnknown)
    let content ← Proc.ofExcept (orError upstream .blobUnknown)
    cacheBlob env repo digest content
    pure .upstream

end Read

/-! ### Uploads -/

section Upload
variable (env : Env)

/-- `RecordDockerBlob` and `RecordDockerImageBlob`, with the origin of the link. -/
def linkBlob (step : Step) (repository imageName digest : String) (size : Int) (origin : Origin) : Handler Unit := do
  write fun w => w.with (recordDockerBlob env.text w.db repository digest size)
  Proc.tell step .unavailable fun w => (recordDockerImageBlob env.text w.db repository imageName digest).map fun db =>
    { w with db, origins := origin :: w.origins }

structure UploadQuery where
  mount : String
  source : String
  digest : String
  body : String
  /-- What `uuid.NewString` returns. -/
  uuid : String
deriving DecidableEq, Repr

/-- Whether a mount may take the blob from its source; asking is remembered with the tables. -/
def askSource (user : User) (source mountDigest : String) : Handler Bool := do
  let (fromRepoName, fromImageName) := parseRepositoryAndImage source
  match env.getRepo fromRepoName with
  | none => pure false
  | some fromRepository =>
    if '/' ∉ (trimSlash source).toList then pure false
    else
      let canReadSource ← Proc.call .query .unavailable fun w =>
        .ok (canReadDocker env.text w.db user fromRepository source,
          { w with origins := .asked w.db user fromRepository source :: w.origins })
      if canReadSource then
        let locks ← query fun w => dockerLocks env.text w.db fromRepoName fromImageName mountDigest
        Proc.ofExcept (require (readLocked locks = false) .blobUnknown)
        let linked ← query fun w => pure (dockerImageReferencesBlob env.text w.db fromRepoName fromImageName mountDigest)
        let stored ← query fun w => pure (w.file (blobPath env fromRepoName mountDigest)).isSome
        pure (linked && stored)
      else pure false

/-- The rest of `HandlePostUpload`: a monolithic upload, or a new session. -/
def startUpload (repository imageName : String) (q : UploadQuery) : Handler Served := do
  let path := stagingPath env repository q.uuid
  write fun w => pure (w.mkdirAll (parentDir path))
  if q.digest ≠ "" ∧ q.body ≠ "" then
    Proc.ofExcept (require (env.calculateDigest q.body = q.digest) .digestInvalid)
    query fun w => ensureDockerBlobMutable w.db repository q.digest
    write (commitContent env repository q.digest q.body)
    linkBlob env (.linkUpload none) repository imageName q.digest q.body.utf8ByteSize
      (.uploaded (sanitizeDockerKey env.text repository imageName) (dockerDigest env.text q.digest) none)
    pure .created
  else
    write fun w => pure (if (w.file path).isSome then w else w.writeFile path "")
    pure .accepted

def handlePostUpload (cred : Credentials) (name : String) (q : UploadQuery) : Handler Served := do
  let imageName := (parseRepositoryAndImage name).2
  let (repo, user) ← authorized env cred name .push
  let mountable ← if q.mount ≠ "" ∧ q.source ≠ "" then askSource env user q.source q.mount else pure false
  if mountable then
    match env.getRepo (parseRepositoryAndImage q.source).1 with
    | none => Proc.throw .unavailable
    | some source =>
      let size ← query fun w => pure (((w.file (blobPath env source.name q.mount)).map String.utf8ByteSize).getD 0)
      linkBlob env .write repo.name imageName q.mount size
        (.mounted (sanitizeDockerKey env.text repo.name imageName) (dockerDigest env.text q.mount) user source q.source)
      pure .created
  else startUpload env repo.name imageName q

/-- What `HandlePostUpload` does once the source of a mount was asked. -/
def mountOrUpload (repo : Repository) (user : User) (imageName : String) (q : UploadQuery) (mountable : Bool) :
    Handler Served :=
  if mountable then
    match env.getRepo (parseRepositoryAndImage q.source).1 with
    | none => Proc.throw .unavailable
    | some source => do
      let size ← query fun w => pure (((w.file (blobPath env source.name q.mount)).map String.utf8ByteSize).getD 0)
      linkBlob env .write repo.name imageName q.mount size
        (.mounted (sanitizeDockerKey env.text repo.name imageName) (dockerDigest env.text q.mount) user source q.source)
      pure .created
  else startUpload env repo.name imageName q

/-- `GetStagedBlob` and `WriteAt` at the end; the file is created if there is none. -/
def appendStaged (repository uploadUUID body : String) : Handler Unit :=
  Proc.tell .write .uploadUnknown fun w => do
    let path := stagingPath env repository uploadUUID
    require (w.opens path = true) .uploadUnknown
    pure (w.writeFile path ((w.file path).getD "" ++ body))

def handlePatchUpload (cred : Credentials) (name uploadUUID body : String) : Handler Served := do
  let (repo, _) ← authorized env cred name .push
  appendStaged env repo.name uploadUUID body
  pure .accepted

/-- `CommitBlob`: the staged file is hashed again and moved. -/
def commitBlob (repository uploadUUID digest : String) (w : World) : Except DockerError World := do
  ensureDockerBlobMutable w.db repository digest
  let content ← orError (w.file (stagingPath env repository uploadUUID)) .uploadInvalid
  require (env.calculateDigest content = digest) .uploadInvalid
  let path := blobPath env repository digest
  pure (((w.mkdirAll (parentDir path)).removeFile (stagingPath env repository uploadUUID)).writeFile path content)

def handlePutUpload (cred : Credentials) (name uploadUUID digest body : String) : Handler Served := do
  Proc.ofExcept (require (digest ≠ "") .digestInvalid)
  let imageName := (parseRepositoryAndImage name).2
  let (repo, _) ← authorized env cred name .push
  appendStaged env repo.name uploadUUID body
  let content ← query fun w => orError (w.file (stagingPath env repo.name uploadUUID)) .uploadInvalid
  if env.calculateDigest content ≠ digest then
    write fun w => pure (w.removeFile (stagingPath env repo.name uploadUUID))
    Proc.throw .digestInvalid
  else
    query fun w => ensureDockerBlobMutable w.db repo.name digest
    write (commitBlob env repo.name uploadUUID digest)
    linkBlob env (.linkUpload (some uploadUUID)) repo.name imageName digest content.utf8ByteSize
      (.uploaded (sanitizeDockerKey env.text repo.name imageName) (dockerDigest env.text digest) (some uploadUUID))
    pure .created

def handleGetUploadStatus (cred : Credentials) (name uploadUUID : String) : Handler Served := do
  let (repo, _) ← authorized env cred name .push
  appendStaged env repo.name uploadUUID ""
  pure .noContent

/-- `Discard`; an upload that cannot be opened is no error. -/
def handleDeleteUpload (cred : Credentials) (name uploadUUID : String) : Handler Served := do
  let (repo, _) ← authorized env cred name .push
  let path := stagingPath env repo.name uploadUUID
  let _ ← Proc.attempt (write fun w => pure (if w.opens path then w.removeFile path else w))
  pure .noContent

end Upload

/-! ### Manifests -/

section Manifests
variable (env : Env)

/-- One component of an image name: letters and digits, with a dot, one or two underscores or some dashes between. -/
def componentFrom : List Char → List Char → Bool
  | _, [] => false
  | pre, [c] => (c.isLower || c.isDigit) && (pre ∈ [[], ['.'], ['_'], ['_', '_']] || pre.all (· = '-'))
  | pre, c :: cs =>
    if c.isLower || c.isDigit then (pre ∈ [[], ['.'], ['_'], ['_', '_']] || pre.all (· = '-')) && componentFrom [] cs
    else (c = '.' || c = '_' || c = '-') && componentFrom (c :: pre) cs

def dockerImageComponent : List Char → Bool
  | [] => false
  | c :: cs => (c.isLower || c.isDigit) && (cs = [] || componentFrom [] cs)

example : dockerImageComponent "a__b--c.d9".toList = true ∧ dockerImageComponent "a..b".toList = false := by decide +kernel

def normalizeImageName (value : String) : Option String :=
  let value := env.text.toLower (trimSlash (env.text.trimSpace value))
  if value ≠ "" ∧ value.utf8ByteSize ≤ 255 ∧ (value.toList.splitOn '/').all dockerImageComponent = true then some
    value else none

/-- `normalizeManifestReference`: the tag, which is empty for a digest, and the version. -/
def normalizeManifestReference (reference digest : String) : Option (String × String) :=
  let reference := env.text.trimSpace reference
  if Storage.hasPrefix reference "sha256:" = true then
    if reference = digest ∧ reference.utf8ByteSize = 71 ∧ (reference.toList.drop 7).all Locks.hexDigit = true then
      some ("", reference)
    else none
  else
    match reference.toList with
    | [] => none
    | c :: cs =>
      if (c.isAlphanum || c = '_') && cs.all (fun c => c.isAlphanum || c = '_' || c = '.' || c = '-') && cs.length ≤
        127 then
        some (reference, reference)
      else none

/-- `CreateOrUpdatePublicationReview`: a pending review of the version gets the new payload. -/
def queuePublicationReview (repository imageName version publisher : String) (payload : Payload) (tasks : List ReviewTask) :
    List ReviewTask :=
  if tasks.any fun t => t.pending && t.repository = repository && t.resourceKey = imageName &&
      t.resourceVersion = version then
    tasks.map fun t =>
      if t.pending && t.repository = repository && t.resourceKey = imageName && t.resourceVersion = version then
        { t with payload } else t
  else tasks ++ [⟨tasks.length, repository, imageName, version, publisher, true, payload⟩]

/-- The digests that a write links to an image. -/
def blobKeys (digests : List String) : List String := (digests.map (dockerDigest env.text)).filter (· ≠ "")

def handlePutManifest (cred : Credentials) (name reference body contentType : String) : Handler Served := do
  Proc.ofExcept (require (name ≠ "" ∧ reference ≠ "") .manifestInvalid)
  let imageName := (parseRepositoryAndImage name).2
  let (repo, user) ← authorized env cred name .push
  let parsed ← Proc.ofExcept (orError (env.parseManifest body contentType) .manifestInvalid)
  Proc.ofExcept (require (Storage.hasPrefix reference "sha256:" = true → reference = parsed.digest) .digestInvalid)
  let (tag, version) ← Proc.ofExcept (orError (normalizeManifestReference env reference parsed.digest) .tagInvalid)
  query fun w => ensureDockerManifestMutable env.text w.db repo.name imageName parsed.digest tag
  let present ← query fun w => pure (getDockerImageAccess env.text w.db repo.name imageName "").present
  Proc.ofExcept (require (present = true) .nameUnknown)
  permitted
  if repo.reviewEveryVersion then
    write fun w => pure { w with
      tasks := queuePublicationReview repo.name imageName version user.username ⟨repo.name, imageName, reference, parsed,
        body⟩ w.tasks }
    pure .accepted
  else
    let path := manifestPath env repo.name imageName parsed.digest
    let existed ← query fun w => pure (w.file path).isSome
    write fun w => pure (w.writeFile path body)
    let m := manifestWrite repo.name imageName body parsed parsed.digest parsed.mediaType
    match ← Proc.attempt (Proc.tell (.putManifest (sanitizeDockerKey env.text repo.name imageName)
      (blobKeys env m.blobDigests))
      .unavailable fun w => w.with (putDockerManifest env.text w.db m tag user.username false)) with
    | .ok _ => pure .created
    | .error e =>
      if existed = false then write fun w => pure (w.removeFile path)
      Proc.throw e

/-- `dockerReviewPayload` -/
def dockerReviewPayload (task : Nat) (w : World) : Except DockerError (ReviewTask × Payload) := do
  let t ← orError (w.tasks.find? fun t => t.id = task) .invalidRequest
  let p := t.payload
  let imageName ← orError (normalizeImageName env p.imageName) .invalidRequest
  let parsed ← orError (env.parseManifest p.rawJSON p.parsed.mediaType) .invalidRequest
  let (_, version) ← orError (normalizeManifestReference env p.reference p.parsed.digest) .invalidRequest
  require (p.repository = t.repository ∧ imageName = t.resourceKey ∧ version = t.resourceVersion ∧ p.parsed = parsed ∧
    0 < parsed.size) .invalidRequest
  pure (t, { p with imageName })

/-- Every blob of the manifest has to be recorded, stored and linked to the image. -/
def checkBlobs (repository imageName : String) : List String → Handler Unit
  | [] => pure ()
  | digest :: digests => do
    let recorded ← query fun w => pure (hasDockerBlob env.text w.db repository digest)
    let stored ← query fun w => pure (w.file (blobPath env repository digest)).isSome
    let linked ← query fun w => pure (dockerImageReferencesBlob env.text w.db repository imageName digest)
    Proc.ofExcept (require (recorded = true ∧ stored = true ∧ linked = true) .reviewConflict)
    checkBlobs repository imageName digests

/-- `ApproveDockerPublicationReview`; the rights of the reviewer and of the requester are left to the verdict. -/
def approveDockerPublicationReview (task : ReviewTask) (m : ManifestWrite) (tag : String) (w : World) :
    Except DockerError World := do
  let t ← orError (w.tasks.find? fun t => t.id = task.id) .reviewConflict
  require (t.pending = true) .reviewConflict
  let (write, tag) ← normalizeDockerManifestWrite env.text m tag t.requestedBy
  require (write.repository = t.repository ∧ write.imageName = t.resourceKey ∧
    (if tag = "" then write.digest else tag) = t.resourceVersion) .invalidRequest
  lockDockerImageRow w.db write.repository write.imageName
  ensureResourceMutable env.text w.db write.repository write.imageName "" false
  let db ← putDockerManifestTx env.text w.db write tag false
  pure { w with db, tasks := w.tasks.map fun u => if u.id = task.id then { u with pending := false } else u }

def approvePublicationReview (task : Nat) : Handler Served := do
  let (t, p) ← query (dockerReviewPayload env task)
  let (tag, _) ← Proc.ofExcept (orError (normalizeManifestReference env p.reference p.parsed.digest) .invalidRequest)
  query fun w => ensureDockerManifestMutable env.text w.db p.repository p.imageName p.parsed.digest tag
  checkBlobs env p.repository p.imageName (referencedBlobDigests p.parsed)
  let path := manifestPath env p.repository p.imageName p.parsed.digest
  let existed ← query fun w => pure (w.file path).isSome
  write fun w => pure (w.writeFile path p.rawJSON)
  match ← Proc.attempt (write (approveDockerPublicationReview env t
    (manifestWrite p.repository p.imageName p.rawJSON p.parsed p.parsed.digest p.parsed.mediaType) tag)) with
  | .ok _ => pure .created
  | .error e =>
    if existed = false then write fun w => pure (w.removeFile path)
    Proc.throw e

end Manifests

/-! ### Deleting -/

section Delete
variable (env : Env)

/-- The action that a `DELETE` needs is taken from its path. -/
def deleteAction (path : String) : Action := if Storage.containsText path "/blobs/uploads/" then .push else .delete

def handleDeleteManifest (cred : Credentials) (path name reference : String) : Handler Served := do
  let imageName := (parseRepositoryAndImage name).2
  let (repo, _) ← authorized env cred name (deleteAction path)
  if Storage.hasPrefix reference "sha256:" = true then
    write fun w => w.with (deleteDockerManifest env.text w.db repo.name imageName reference)
    let _ ← Proc.attempt (write fun w => pure (w.removeFile (manifestPath env repo.name imageName reference)))
    pure .accepted
  else
    write fun w => w.with (deleteDockerTag env.text w.db repo.name imageName reference)
    pure .accepted

def handleDeleteBlob (cred : Credentials) (path name digest : String) : Handler Served := do
  let (repo, _) ← authorized env cred name (deleteAction path)
  write fun w => w.with (deleteDockerBlob env.text w.db repo.name digest)
  write fun w => pure (w.removeFile (blobPath env repo.name digest))
  pure .accepted

/-- `DELETE` of an image by the management interface, which checks the rights on its own. -/
def deleteImage (repository imageName : String) : Handler Served := do
  permitted
  write fun w => w.with (deleteDockerImage env.text w.db repository imageName)
  pure .accepted

def deleteRepository (repository : String) : Handler Served := do
  permitted
  write fun w => pure { w with db := deleteDockerRepository env.text w.db repository }
  pure .accepted

end Delete

/-! ### Requests -/

inductive Request
  | tagsList (cred : Credentials) (name last : String) (n : Int)
  | getManifest (cred : Credentials) (name reference : String) (upstream : Upstream)
  | getBlob (cred : Credentials) (name digest : String) (upstream : Option String)
  | putManifest (cred : Credentials) (name reference body contentType : String)
  | postUpload (cred : Credentials) (name : String) (q : UploadQuery)
  | patchUpload (cred : Credentials) (name uploadUUID body : String)
  | putUpload (cred : Credentials) (name uploadUUID digest body : String)
  | getUploadStatus (cred : Credentials) (name uploadUUID : String)
  | deleteUpload (cred : Credentials) (name uploadUUID : String)
  | deleteManifest (cred : Credentials) (path name reference : String)
  | deleteBlob (cred : Credentials) (path name digest : String)
  | approve (task : Nat)
  | deleteImage (repository imageName : String)
  | deleteRepository (repository : String)
  /-- Images are created and hidden, members come and go, locks are set. -/
  | administer (f : Accounts → Accounts)

def handle (env : Env) : Request → Handler Served
  | .tagsList cred name last n => handleTagsList env cred name last n
  | .getManifest cred name reference upstream => handleGetManifest env cred name reference upstream
  | .getBlob cred name digest upstream => handleGetBlob env cred name digest upstream
  | .putManifest cred name reference body contentType =>
    mutateImage env name (handlePutManifest env cred name reference body contentType)
  | .postUpload cred name q => mutateImage env name (handlePostUpload env cred name q)
  | .patchUpload cred name uploadUUID body => mutateImage env name (handlePatchUpload env cred name uploadUUID body)
  | .putUpload cred name uploadUUID digest body => mutateImage env name (handlePutUpload env cred name uploadUUID digest body)
  | .getUploadStatus cred name uploadUUID => mutateImage env name (handleGetUploadStatus env cred name uploadUUID)
  | .deleteUpload cred name uploadUUID => mutateImage env name (handleDeleteUpload env cred name uploadUUID)
  | .deleteManifest cred path name reference => mutateImage env name (handleDeleteManifest env cred path name reference)
  | .deleteBlob cred path name digest => mutateImage env name (handleDeleteBlob env cred path name digest)
  | .approve task => approvePublicationReview env task
  | .deleteImage repository imageName => deleteImage env repository imageName
  | .deleteRepository repository => deleteRepository env repository
  | .administer f => do
    write fun w => pure { w with db := { w.db with toAccounts := f w.db.toAccounts } }
    pure .accepted

end Renop.Docker
