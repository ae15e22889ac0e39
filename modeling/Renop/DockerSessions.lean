import Renop.DockerUploads

/-!
# Upload sessions

A session has no record but its file, and `GetStagedBlob` opens that file with `O_CREATE`, so a request finds a session
wherever it can create a file: under every name in the directory of the uploads, once there is one, and through `..` in any
other directory. In a run of requests, one after the other, in which every request names a session that a `POST` has begun and
that is not over, or a path that cannot be opened, no other upload is ever accepted and the files elsewhere stay as they are.
-/

namespace Renop.DockerStore

open FileSystem Interleave Sql
open FileSystem.FS (SameAt Sound Single)
open Renop.Docker

/-! ### What a request may change -/

/-- A file in the directory of the uploads. -/
def Inside (env : Env) (r path : String) : Prop := ∃ id, plainID id = true ∧ path = stagingPath env r id

/-- The files elsewhere are as they were. -/
structure Tame (env : Env) (r id : String) (s s' : Store) : Prop where
  known : s'.fs.Sound fun _ => False
  single : s'.fs.Single
  sessions : ∀ u ∈ s'.sessions, u ∈ s.sessions ∨ u = (r, id)
  stored : s'.stored = s.stored
  same : ∀ p, ¬Inside env r p → s'.fs.names p = s.fs.names p ∧
    ∀ file, s.fs.names p = some file → s'.fs.content file = s.fs.content file

/-- They are, but for the blob that was committed. -/
structure Confined (env : Env) (r id : String) (s s' : Store) : Prop where
  known : s'.fs.Sound fun _ => False
  single : s'.fs.Single
  sessions : ∀ u ∈ s'.sessions, u ∈ s.sessions ∨ u = (r, id)
  same : ∀ p, ¬Inside env r p → (∀ content, s'.stored ≠ (p, content) :: s.stored) →
    s'.fs.names p = s.fs.names p ∧ ∀ file, s.fs.names p = some file → s'.fs.content file = s.fs.content file

section Tame
variable {env : Env} {r id : String} {s₀ s t : Store} {file : Nat}

theorem Tame.refl (r id : String) (hknown : s.fs.Sound fun _ => False) (hsingle : s.fs.Single) : Tame env r id s s :=
  ⟨hknown, hsingle, fun _ => .inl, rfl, fun _ _ => ⟨rfl, fun _ _ => rfl⟩⟩

theorem Tame.trans (h : Tame env r id s₀ s) (h' : Tame env r id s t) : Tame env r id s₀ t := by
  refine ⟨h'.known, h'.single, fun u hu => ?_, h'.stored.trans h.stored, fun p hp => ?_⟩
  · rcases h'.sessions u hu with hu | hu
    · exact h.sessions u hu
    · exact .inr hu
  · obtain ⟨hname, hcontent⟩ := h.same p hp
    obtain ⟨hname', hcontent'⟩ := h'.same p hp
    refine ⟨hname'.trans hname, fun file hfile => ?_⟩
    rw [hcontent' file (hname.trans hfile), hcontent file hfile]

theorem Tame.confined (h : Tame env r id s₀ s) (h' : Confined env r id s t) : Confined env r id s₀ t := by
  refine ⟨h'.known, h'.single, fun u hu => ?_, fun p hp hstored => ?_⟩
  · rcases h'.sessions u hu with hu | hu
    · exact h.sessions u hu
    · exact .inr hu
  · obtain ⟨hname, hcontent⟩ := h.same p hp
    obtain ⟨hname', hcontent'⟩ := h'.same p hp (by rwa [h.stored])
    refine ⟨hname'.trans hname, fun file hfile => ?_⟩
    rw [hcontent' file (hname.trans hfile), hcontent file hfile]

theorem Tame.whole (h : Tame env r id s t) : Confined env r id s t :=
    ⟨h.known, h.single, h.sessions, fun p hp _ => h.same p hp⟩

theorem Confined.trans (h : Confined env r id s₀ s) (h' : Tame env r id s t) : Confined env r id s₀ t := by
  refine ⟨h'.known, h'.single, fun u hu => ?_, fun p hp hstored => ?_⟩
  · rcases h'.sessions u hu with hu | hu
    · exact h.sessions u hu
    · exact .inr hu
  · obtain ⟨hname, hcontent⟩ := h.same p hp (by rwa [← h'.stored])
    obtain ⟨hname', hcontent'⟩ := h'.same p hp
    refine ⟨hname'.trans hname, fun file hfile => ?_⟩
    rw [hcontent' file (hname.trans hfile), hcontent file hfile]

theorem Tame.congr (h : Tame env r id s₀ s) (hfs : t.fs = s.fs) (hstored : t.stored = s.stored)
    (hsessions : ∀ u ∈ t.sessions, u ∈ s.sessions ∨ u = (r, id)) : Tame env r id s₀ t :=
  h.trans ⟨hfs ▸ h.known, hfs ▸ h.single, hsessions, hstored, fun _ _ => ⟨by rw [hfs], fun _ _ => by rw [hfs]⟩⟩

theorem mem_endSession {u : String × String} (h : u ∈ (s.endSession r id).sessions) :
    u ∈ s.sessions := (List.mem_filter.1 h).1

end Tame

/-! ### Programs -/

section Rules
variable {α β : Type} {T C : Store → Prop} {Q : α → Store → Prop} {R : β → Store → Prop} {p : StoreProc α}
    {k : α → StoreProc β} {s : Store}

/-- Whatever fails, `T` holds at the end, and `Q` if the program returns. -/
def Does (T : Store → Prop) (p : StoreProc α) (Q : α → Store → Prop) (s : Store) : Prop :=
  p.wp (fun _ _ => True) (fun res t => T t ∧ ∀ a, res = .ok a → Q a t) s

theorem Does.mono {Q' : α → Store → Prop} (h : Does T p Q s) (hT : ∀ t, T t → C t) (hQ : ∀ a t, Q a t → Q' a t) :
    Does C p Q' s :=
  Proc.wp_mono (fun _ t ht => ⟨hT t ht.1, fun a ha => hQ a t (ht.2 a ha)⟩) h

theorem Does.pure {a : α} (hT : T s) (hQ : Q a s) :
    Does T (.done (.ok a)) Q s := ⟨hT, fun _ hb => Except.ok.inj hb ▸ hQ⟩

theorem Does.throw (e : DockerError) (hT : T s) : Does T (Proc.throw e) Q s := ⟨hT, fun _ ha => nomatch ha⟩

theorem Does.ofExcept {x : Except DockerError α} (hT : T s) (hQ : ∀ a, x = .ok a → Q a s) :
    Does T (Proc.ofExcept x) Q s := ⟨hT, hQ⟩

theorem Does.bind (hp : Does T p Q s) (hTC : ∀ t, T t → C t) (hk : ∀ a t, T t → Q a t → Does C (k a) R t) :
    Does C (p.bind k) R s := by
  unfold Does
  rw [Proc.wp_bind]
  refine Proc.wp_mono (fun res t ht => ?_) hp
  cases res with
  | ok a => exact hk a t ht.1 (ht.2 a rfl)
  | error e => exact ⟨hTC t ht.1, fun _ ha => nomatch ha⟩

theorem Does.next (hp : Does T p Q s) (hk : ∀ a t, T t → Q a t → Does T (k a) R t) :
    Does T (p.bind k) R s := hp.bind (fun _ => id) hk

theorem Does.attempt (hp : Does T p Q s) : Does T p.attempt (fun res t => ∀ a, res = .ok a → Q a t) s := by
  unfold Does
  rw [Proc.wp_attempt]
  exact Proc.wp_mono (fun res t ht => ⟨ht.1, fun _ hb => Except.ok.inj hb ▸ ht.2⟩) hp

theorem Does.ask {label : FileCall} {e : DockerError} {f : Store → Except DockerError α} (hT : T s) :
    Does T (Proc.ask label e f) (fun _ t => t = s) s :=
  Proc.wp_ask (fun _ => ⟨hT, fun _ ha => nomatch ha⟩) fun _ _ => ⟨hT, fun _ _ => rfl⟩

theorem Does.look {label : FileCall} {f : Bool → Store → α} (hT : T s) :
    Does T (Proc.atomic label fun fail t => (f fail t, t)) (fun _ t => t = s) s := fun _ _ => ⟨hT, fun _ _ => rfl⟩

end Rules

section Steps
variable {env : Env} {calculateDigest : List UInt8 → String} {r id : String} {s₀ s : Store} {file : Nat}

attribute [local irreducible] blobPath stagingPath parentDir Index.pathClean parseRepositoryAndImage trimSlash

theorem checked_does (e : DockerError) {T : Store → Prop} (hT : T s) : Does T (checked e) (fun _ t => t = s) s := .ask hT

theorem openStaged_does {path : String} {T : Store → Prop} (hT : T s) :
    Does T (openStaged path) (fun _ t => t = s) s := .ask hT

theorem makeDir_does {path : String} (hT : Tame env r id s₀ s) :
    Does (Tame env r id s₀) (makeDir path) (fun _ t => t.fs = s.fs) s := by
  refine Proc.wp_tell (fun _ => ⟨hT, fun _ ha => nomatch ha⟩) (fun t ht => ?_) fun _ _ => ⟨hT, fun _ ha => nomatch ha⟩
  obtain rfl := Except.ok.inj ht
  exact ⟨hT.congr rfl rfl fun _ => .inl, fun _ _ => rfl⟩

theorem openFile_does (hid : plainID id = true) (e : DockerError) (hT : Tame env r id s₀ s) :
    Does (Tame env r id s₀) (openFile (stagingPath env r id) e)
      (fun file t => t.fs.names (stagingPath env r id) = some file) s := by
  refine Proc.wp_call (fun _ => ⟨hT, fun _ ha => nomatch ha⟩) (fun file t ht => ?_) fun _ _ =>
    ⟨hT, fun _ ha => nomatch ha⟩
  split at ht
  · simp only [Except.ok.injEq, Prod.mk.injEq] at ht
    obtain ⟨rfl, rfl⟩ := ht
    refine ⟨hT.trans ⟨hT.known.openCreate _, hT.single.openCreate hT.known _, fun _ => .inl, rfl, fun p hp => ?_⟩,
      fun _ ha => ?_⟩
    · have hne : p ≠ stagingPath env r id := fun h => hp ⟨id, hid, h⟩
      refine ⟨(SameAt.openCreate s.fs hne).name, fun file hfile => ?_⟩
      have hlt := hT.known.known p file hfile
      rcases FS.openCreate_cases s.fs (stagingPath env r id) with ⟨h, -, hopen⟩ | ⟨-, hopen⟩
      · simp [hopen]
      · simp only [hopen, FS.create]
        rw [if_neg (by omega)]
    · rw [← Except.ok.inj ha]
      exact FS.openCreate_file
  · cases ht

theorem writeStaged_does (hid : plainID id = true) {off : Nat} {body : Body} (hT : Tame env r id s₀ s)
    (hname : s.fs.names (stagingPath env r id) = some file) :
    Does (Tame env r id s₀) (writeStaged file off body) (fun _ t => t.fs.names (stagingPath env r id) = some file) s := by
  intro fail _
  refine ⟨hT.trans ⟨⟨hT.known.known, nofun⟩, hT.single, fun _ => .inl, rfl, fun p hp => ⟨rfl, fun k hk => ?_⟩⟩,
    fun _ _ => hname⟩
  have hne : k ≠ file := fun h => hp ⟨id, hid, hT.single p _ k hk (h ▸ hname)⟩
  exact if_neg hne

theorem discard_does (hid : plainID id = true) (hT : Tame env r id s₀ s) :
    Does (Tame env r id s₀) (discard env r id) (fun _ _ => True) s := by
  refine (Does.look hT).next fun _ t ht hs => ?_
  intro fail _
  cases fail with
  | true => exact ⟨ht.congr rfl rfl fun u hu => .inl (mem_endSession hu), fun _ _ => trivial⟩
  | false =>
    refine ⟨ht.trans ⟨ht.known.remove _, ht.single.remove _, fun u hu => .inl (mem_endSession hu), rfl, fun p hp =>
      ⟨?_, fun _ _ => rfl⟩⟩, fun _ _ => trivial⟩
    have hne : p ≠ stagingPath env r id := fun h => hp ⟨id, hid, h⟩
    exact (SameAt.remove t.fs hne).name

theorem orDiscard_does {α : Type} (hid : plainID id = true) {p : StoreProc α} {Q : α → Store → Prop}
    (hp : Does (Tame env r id s₀) p Q s) : Does (Tame env r id s₀) (orDiscard env r id p) Q s := by
  refine hp.attempt.next fun res t ht hQ => ?_
  cases res with
  | ok a => exact .pure ht (hQ a rfl)
  | error e => exact (discard_does hid ht).next fun _ _ ht _ => .throw e ht

theorem stagedDigest_does {path : String} (hT : Tame env r id s₀ s) :
    Does (Tame env r id s₀) (stagedDigest calculateDigest path) (fun _ _ => True) s := by
  refine (Does.ask hT).next fun _ t ht _ => ?_
  exact (Does.ask ht).mono (fun _ h => h) fun _ _ _ => trivial

/-- The rename is the one step that goes elsewhere. -/
theorem commitBlob_does {digest : String} (hid : plainID id = true) (hT : Tame env r id s₀ s) :
    Does (Confined env r id s₀) (commitBlob env calculateDigest r id digest) (fun _ _ => True) s := by
  have hTC : ∀ t, Tame env r id s₀ t → Confined env r id s₀ t := fun _ h => h.whole
  unfold commitBlob
  refine (checked_does .resourceLocked hT).bind hTC fun _ t ht _ => ?_
  refine (Does.ask ht).bind hTC fun size t ht _ => ?_
  refine (openStaged_does ht).bind hTC fun file t ht _ => ?_
  have hhash : Does (Tame env r id s₀) (Proc.call .other .uploadInvalid fun s =>
      .ok (calculateDigest (s.fs.content file), if calculateDigest (s.fs.content file) = digest then { s with hashed :=
        (file, digest) :: s.hashed } else s))
      (fun _ _ => True) t := by
    refine Proc.wp_call (fun _ => ⟨ht, fun _ _ => trivial⟩) (fun a t' h => ?_) fun _ _ => ⟨ht, fun _ _ => trivial⟩
    simp only [Except.ok.injEq, Prod.mk.injEq] at h
    obtain ⟨rfl, rfl⟩ := h
    split
    · exact ⟨ht.congr rfl rfl fun _ => .inl, fun _ _ => trivial⟩
    · exact ⟨ht, fun _ _ => trivial⟩
  refine hhash.bind hTC fun actual t ht _ => Does.bind (.ofExcept (Q := fun _ _ => True) ht fun _ _ => trivial) hTC
    fun _ t ht _ => ?_
  refine (makeDir_does ht).bind hTC fun _ t ht _ => ?_
  have hrename : Does (Confined env r id s₀) (Proc.tell (.rename (stagingPath env r id) file) .uploadInvalid fun s =>
      (orError (s.fs.names (stagingPath env r id)) .uploadInvalid).map fun moved =>
        { s.endSession r id with
          fs := s.fs.rename (stagingPath env r id) (blobPath env r digest)
          stored := (blobPath env r digest, s.fs.content moved) :: s.stored }) (fun _ _ => True) t := by
    refine Proc.wp_tell (fun _ => ⟨ht.whole, fun _ _ => trivial⟩) (fun t' h => ?_) fun _ _ =>
      ⟨ht.whole, fun _ _ => trivial⟩
    cases hname : t.fs.names (stagingPath env r id) with
    | none => simp [hname, orError, Except.map] at h
    | some moved =>
      simp only [hname, orError, Except.map, Except.ok.injEq] at h
      subst h
      refine ⟨ht.confined ⟨ht.known.rename _ not_false, ht.single.rename _ _, fun u hu => .inl (mem_endSession hu),
        fun p hp hstored => ?_⟩, fun _ _ => trivial⟩
      have hne : p ≠ stagingPath env r id := fun h => hp ⟨id, hid, h⟩
      have hne' : p ≠ blobPath env r digest := fun h => hstored (t.fs.content moved) (by rw [h])
      exact ⟨(SameAt.rename t.fs hne hne').name, fun _ _ => rfl⟩
  exact hrename.next fun _ t ht _ => .pure ht trivial

end Steps

/-! ### Requests -/

/-- The session that a request takes for granted. -/
def Request.claims : Request → Option (String × String)
  | .patch name id _ | .put name id _ _ | .status name id | .cancel name id => some ((parseRepositoryAndImage name).1, id)
  | _ => none

def Request.repository : Request → String
  | .post name _ _ _ | .patch name _ _ | .put name _ _ _ | .status name _ | .cancel name _ | .getBlob name _ _ _ _ | .upload
    name _ _ _ _
  | .deleteBlob name _ => (parseRepositoryAndImage name).1

/-- The session is not known, or the request was refused before it came to that. -/
def Request.Refused (env : Env) (req : Request) (res : Except DockerError Unit) : Prop :=
  res = .error .uploadUnknown ∨ res = .error .denied ∨ (res = .error .nameUnknown ∧ env.repos req.repository = none) ∨
    (res = .error .digestInvalid ∧ ∃ name id body, req = .put name id "" body)

/-- A `POST` has begun the session, and it is not over. -/
def Held (env : Env) (s : Store) (name id : String) : Prop :=
  (env.repos (parseRepositoryAndImage name).1).isSome = true → ((parseRepositoryAndImage name).1, id) ∈ s.sessions

/-- A file of this name cannot be opened: its directory is missing, or it is a directory. -/
def Closed (env : Env) (s : Store) (name id : String) :
    Prop := s.opens (stagingPath env (parseRepositoryAndImage name).1 id) = false

/-- The requests of a run: a `POST` makes a new name, and the others name a session that is held, or what cannot be opened. -/
def Orderly (env : Env) (s : Store) : Request → Prop
  | .post _ id _ _ => plainID id = true
  | .patch name id _ | .status name id => Held env s name id ∨ Closed env s name id
  | .put name id digest _ => digest = "" ∨ Held env s name id ∨ Closed env s name id
  | .cancel name id => Held env s name id
  | _ => False

/-- What a run keeps. -/
structure Proper (s : Store) : Prop where
  known : s.fs.Sound fun _ => False
  single : s.fs.Single
  plain : ∀ u ∈ s.sessions, plainID u.2 = true

section Requests
variable {env : Env} {calculateDigest : List UInt8 → String} {r id name : String} {s s' : Store} {req : Request}

attribute [local irreducible] blobPath stagingPath parentDir Index.pathClean parseRepositoryAndImage trimSlash

theorem authorized_wp {Q : Except DockerError String → Store → Prop} (hok : Q (.ok (parseRepositoryAndImage name).1) s)
    (hdenied : Q (.error .denied) s) (hunknown : env.repos (parseRepositoryAndImage name).1 = none →
      Q (.error .nameUnknown) s) :
    (authorized env name).wp (fun _ _ => True) Q s := by
  unfold authorized Env.getRepo
  cases hrepo : env.repos (parseRepositoryAndImage name).1 with
  | none => exact hunknown hrepo
  | some config => exact fun fail _ => by cases fail <;> assumption

theorem authorized_does {T : Store → Prop} (hT : T s) :
    Does T (authorized env name) (fun repository t => repository = (parseRepositoryAndImage name).1 ∧ t = s) s :=
  authorized_wp ⟨hT, fun _ ha => ⟨(Except.ok.inj ha).symm, rfl⟩⟩ ⟨hT, fun _ ha => nomatch ha⟩ fun _ =>
    ⟨hT, fun _ ha => nomatch ha⟩

theorem session_refused (k : String → Nat → StoreProc Unit) (hclosed : Closed env s name id) :
    ((authorized env name).bind fun repository => (getStagedBlob env repository id).bind (k repository)).wp (fun _ _ => True)
      (fun res t => t = s ∧ (res = .error .uploadUnknown ∨ res = .error .denied ∨
        (res = .error .nameUnknown ∧ env.repos (parseRepositoryAndImage name).1 = none))) s := by
  rw [Proc.wp_bind]
  refine authorized_wp ?_ ⟨rfl, .inr (.inl rfl)⟩ fun h => ⟨rfl, .inr (.inr ⟨rfl, h⟩)⟩
  show ((getStagedBlob env (parseRepositoryAndImage name).1 id).bind (k _)).wp _ _ s
  rw [Proc.wp_bind]
  refine Proc.wp_call (fun _ => ⟨rfl, .inl rfl⟩) (fun file t h => ?_) fun e h => ?_
  · rw [if_neg (by rw [hclosed]; exact nofun)] at h
    cases h
  · rw [if_neg (by rw [hclosed]; exact nofun)] at h
    cases h
    exact ⟨rfl, .inl rfl⟩

section Confined
variable (hs : Proper s) (hid : plainID id = true)
include hs hid

theorem handlePatchUpload_does {body : Body} :
    Does (Tame env (parseRepositoryAndImage name).1 id s) (handlePatchUpload env name id body) (fun _ _ => True) s := by
  refine (authorized_does (.refl _ _ hs.known hs.single)).next fun repository t ht ⟨hrepo, _⟩ => ?_
  subst hrepo
  refine (openFile_does hid .uploadUnknown ht).next fun file t ht hname => (Does.look ht).next fun off t' ht' hsame => ?_
  subst hsame
  have happend : Does (Tame env (parseRepositoryAndImage name).1 id s)
    (if body.bytes ≠ [] then writeStaged file off body else pure ()) (fun _ _ => True) t' := by
    split
    · exact (writeStaged_does hid ht' hname).mono (fun _ h => h) fun _ _ _ => trivial
    · exact .pure ht' trivial
  exact happend.attempt.next fun result t ht _ => (Does.look ht).next fun _ t ht _ => .ofExcept ht fun _ _ => trivial

theorem handleGetUploadStatus_does :
    Does (Tame env (parseRepositoryAndImage name).1 id s) (handleGetUploadStatus env name id) (fun _ _ => True) s := by
  refine (authorized_does (.refl _ _ hs.known hs.single)).next fun repository t ht ⟨hrepo, _⟩ => ?_
  subst hrepo
  refine (openFile_does hid .uploadUnknown ht).next fun file t ht _ => (Does.look ht).next fun _ t ht _ => ?_
  exact (Does.look ht).mono (fun _ h => h) fun _ _ _ => trivial

theorem handleDeleteUpload_does :
    Does (Tame env (parseRepositoryAndImage name).1 id s) (handleDeleteUpload env name id) (fun _ _ => True) s := by
  refine (authorized_does (.refl _ _ hs.known hs.single)).next fun repository t ht ⟨hrepo, _⟩ => ?_
  subst hrepo
  refine (openFile_does hid .uploadUnknown ht).attempt.next fun result t ht _ => ?_
  cases result with
  | ok file => exact discard_does hid ht
  | error e => exact .pure ht trivial

theorem handlePutUpload_does {digest : String} {body : Body} :
    Does (Confined env (parseRepositoryAndImage name).1 id s) (handlePutUpload env calculateDigest name id digest body)
      (fun _ _ => True) s := by
  have hstart : Tame env (parseRepositoryAndImage name).1 id s s := .refl _ _ hs.known hs.single
  have hTC : ∀ t, Tame env (parseRepositoryAndImage name).1 id s t → Confined env (parseRepositoryAndImage name).1
      id s t :=
    fun _ h => h.whole
  refine Does.bind (Q := fun _ t => t = s) (.ofExcept hstart fun _ _ => rfl) hTC fun _ t ht _ => ?_
  refine (authorized_does ht).bind hTC fun repository t ht ⟨hrepo, _⟩ => ?_
  subst hrepo
  refine (openFile_does hid .uploadUnknown ht).bind hTC fun file t ht hname => ?_
  have happend : Does (Tame env (parseRepositoryAndImage name).1 id s)
    (writeFinalChunk env (parseRepositoryAndImage name).1 id file body) (fun _ _ => True) t := by
    unfold writeFinalChunk
    split
    · refine (Does.look ht).next fun off t' ht' hsame => ?_
      subst hsame
      exact (orDiscard_does hid (writeStaged_does hid ht' hname)).mono (fun _ h => h) fun _ _ _ => trivial
    · exact .pure ht trivial
  refine happend.bind hTC fun _ t ht _ => (Does.look ht).bind hTC fun _ t ht _ => ?_
  refine (orDiscard_does hid (stagedDigest_does ht)).bind hTC fun calculated t ht _ => ?_
  split
  · exact (discard_does hid ht).bind hTC fun _ t ht _ => .throw _ ht.whole
  · refine (checked_does .resourceLocked ht).bind hTC fun _ t ht _ => (commitBlob_does hid ht).next fun _ t ht _ => ?_
    exact (checked_does .unavailable ht).mono (fun _ h => h) fun _ _ _ => trivial

theorem handlePostUpload_does {singleDigest : String} {body : Body} :
    Does (Confined env (parseRepositoryAndImage name).1 id s) (handlePostUpload env calculateDigest name id singleDigest body)
      (fun _ _ => True) s := by
  have hTC : ∀ t, Tame env (parseRepositoryAndImage name).1 id s t → Confined env (parseRepositoryAndImage name).1
      id s t :=
    fun _ h => h.whole
  refine (authorized_does (.refl _ _ hs.known hs.single)).bind hTC fun repository t ht ⟨hrepo, _⟩ => ?_
  subst hrepo
  have hstage : Does (Tame env (parseRepositoryAndImage name).1 id s) (stageBlob env (parseRepositoryAndImage name).1 id)
      (fun file t => t.fs.names (stagingPath env (parseRepositoryAndImage name).1 id) = some file) t :=
    (makeDir_does ht).next fun _ t ht _ => openFile_does hid .uploadInvalid ht
  refine hstage.bind hTC fun file t ht hname => ?_
  split
  · refine (Does.attempt (Q := fun _ _ => True) ?_).next fun result t ht _ => ?_
    · refine Does.bind (Q := fun _ u => u = t) (.ofExcept ht fun _ _ => rfl) hTC fun _ u hu hsame => ?_
      subst hsame
      refine (writeStaged_does hid hu hname).bind hTC fun _ t ht _ => (Does.look ht).bind hTC fun _ t ht _ => ?_
      refine (checked_does .resourceLocked ht).bind hTC fun _ t ht _ => (commitBlob_does hid ht).next fun _ t ht _ => ?_
      exact (checked_does .unavailable ht).mono (fun _ h => h) fun _ _ _ => trivial
    · refine ((discard_does hid (.refl _ _ ht.known ht.single)).mono (fun u hu => ht.trans hu) fun _ _ h => h).next
        fun _ t ht _ => ?_
      exact .ofExcept ht fun _ _ => trivial
  · refine (Does.look ht).bind hTC fun _ t ht _ => ?_
    have hissued : Tame env (parseRepositoryAndImage name).1 id s
        { t with sessions := ((parseRepositoryAndImage name).1, id) :: t.sessions } :=
      ht.congr rfl rfl fun u hu => (List.mem_cons.1 hu).symm
    exact Proc.wp_modify ⟨hissued.whole, fun _ _ => trivial⟩

end Confined

/-- What the answer to a request says about its session, and what the request has done elsewhere. -/
structure Answered (env : Env) (s : Store) (req : Request) (res : Except DockerError Unit) (s' : Store) : Prop where
  accepted : ∀ u, req.claims = some u → res = .ok () → u ∈ s.sessions
  refused : ∀ u, req.claims = some u → u ∉ s.sessions → req.Refused env res
  confined : ∀ p, ¬Inside env req.repository p → (∀ content, s'.stored ≠ (p, content) :: s.stored) →
    s'.fs.names p = s.fs.names p ∧ ∀ file, s.fs.names p = some file → s'.fs.content file = s.fs.content file

theorem Proper.confined (hs : Proper s) (hid : plainID id = true) (h : Confined env r id s s') : Proper s' := by
  refine ⟨h.known, h.single, fun u hu => ?_⟩
  rcases h.sessions u hu with hu | rfl
  · exact hs.plain u hu
  · exact hid

theorem Request.Refused.ne_ok {res : Except DockerError Unit} (h : req.Refused env res) : res ≠ .ok () := by
  rcases h with rfl | rfl | ⟨rfl, -⟩ | ⟨rfl, -⟩ <;> exact nofun

theorem Answered.same {res : Except DockerError Unit} (h : req.Refused env res) : Answered env s req res s :=
  ⟨fun _ _ hok => absurd hok h.ne_ok, fun _ _ _ => h, fun _ _ _ => ⟨rfl, fun _ _ => rfl⟩⟩

theorem held_answered (r id : String) (hs : Proper s) (hsession : req.session = some (r, id))
    (hclaims : req.claims = some (r, id)) (hrepo : req.repository = r)
    (hheld : (env.repos r).isSome = true → (r, id) ∈ s.sessions)
    (hdoes : plainID id = true → Does (Confined env r id s) (handle env calculateDigest req) (fun _ _ => True) s)
    {res : Except DockerError Unit} (hout : Proc.Outcome (handle env calculateDigest req) s res s') :
    Proper s' ∧ Answered env s req res s' := by
  cases hknown : env.repos r with
  | none =>
    -- the repository is unknown, and so the request is refused at once
    obtain ⟨e, he, hcause⟩ := handle_unknown calculateDigest hsession hknown
    rw [he] at hout
    cases hout
    refine ⟨hs, .same ?_⟩
    rcases hcause with rfl | ⟨rfl, hput⟩
    · exact .inr (.inr (.inl ⟨rfl, hrepo ▸ hknown⟩))
    · exact .inr (.inr (.inr ⟨rfl, hput⟩))
  | some config =>
    have hmem : (r, id) ∈ s.sessions := hheld (by rw [hknown]; rfl)
    have hid := hs.plain _ hmem
    obtain ⟨hconfined, -⟩ := hout.of_wp (hdoes hid)
    refine ⟨hs.confined hid hconfined, fun u hu _ => ?_, fun u hu hnot => ?_, fun p hp => ?_⟩
    · rw [hclaims] at hu
      rwa [← Option.some.inj hu]
    · rw [hclaims] at hu
      exact absurd hmem (Option.some.inj hu ▸ hnot)
    · exact hconfined.same p (hrepo ▸ hp)

theorem closed_answered (hs : Proper s) {res : Except DockerError Unit}
    (hout : Proc.Outcome (handle env calculateDigest req) s res s')
    (h : (handle env calculateDigest req).wp (fun _ _ => True) (fun res t => t = s ∧ req.Refused env res) s) :
    Proper s' ∧ Answered env s req res s' := by
  obtain ⟨rfl, hrefused⟩ := hout.of_wp h
  exact ⟨hs, .same hrefused⟩

/-- One request of an orderly run. -/
theorem request_answered (hs : Proper s) (hreq : Orderly env s req) {res : Except DockerError Unit}
    (hout : Proc.Outcome (handle env calculateDigest req) s res s') : Proper s' ∧ Answered env s req res s' := by
  have hrefused : ∀ {name : String} {res : Except DockerError Unit}, req.repository = (parseRepositoryAndImage name).1 →
      res = .error .uploadUnknown ∨ res = .error .denied ∨
        (res = .error .nameUnknown ∧ env.repos (parseRepositoryAndImage name).1 = none) → req.Refused env res := by
    intro name res hname h
    rcases h with h | h | h
    · exact .inl h
    · exact .inr (.inl h)
    · exact .inr (.inr (.inl (hname ▸ h)))
  cases req with
  | post name id singleDigest body =>
    obtain ⟨hconfined, -⟩ := hout.of_wp (handlePostUpload_does hs hreq)
    exact ⟨hs.confined hreq hconfined, nofun, nofun, hconfined.same⟩
  | patch name id body =>
    rcases hreq with hheld | hclosed
    · exact held_answered (parseRepositoryAndImage name).1 id hs rfl rfl rfl hheld
        (fun hid => (handlePatchUpload_does hs hid).mono (fun _ h => h.whole) fun _ _ h => h) hout
    · exact closed_answered hs hout (Proc.wp_mono (fun _ _ h => ⟨h.1, hrefused rfl h.2⟩) (session_refused _ hclosed))
  | status name id =>
    rcases hreq with hheld | hclosed
    · exact held_answered (parseRepositoryAndImage name).1 id hs rfl rfl rfl hheld
        (fun hid => (handleGetUploadStatus_does hs hid).mono (fun _ h => h.whole) fun _ _ h => h) hout
    · exact closed_answered hs hout (Proc.wp_mono (fun _ _ h => ⟨h.1, hrefused rfl h.2⟩) (session_refused _ hclosed))
  | cancel name id =>
    exact held_answered (parseRepositoryAndImage name).1 id hs rfl rfl rfl hreq
      (fun hid => (handleDeleteUpload_does hs hid).mono (fun _ h => h.whole) fun _ _ h => h) hout
  | put name id digest body =>
    by_cases hd : digest = ""
    · subst hd
      exact closed_answered hs hout ⟨rfl, .inr (.inr (.inr ⟨rfl, name, id, body, rfl⟩))⟩
    · rcases hreq with hempty | hheld | hclosed
      · exact absurd hempty hd
      · exact held_answered (parseRepositoryAndImage name).1 id hs rfl rfl rfl hheld (fun hid => handlePutUpload_does hs hid)
          hout
      · refine closed_answered hs hout ?_
        show (handlePutUpload env calculateDigest name id digest body).wp _ _ s
        unfold handlePutUpload
        have hrequire : require (digest ≠ "") DockerError.digestInvalid = .ok () := by simp [require, hd]
        rw [hrequire]
        exact Proc.wp_mono (fun _ _ h => ⟨h.1, hrefused rfl h.2⟩) (session_refused _ hclosed)
  | getBlob | deleteBlob | upload => exact hreq.elim

/-! ### Runs -/

/-- Requests that meet a condition, one after the other. -/
def Run (env : Env) (calculateDigest : List UInt8 → String) (good : Store → Request → Prop) :
    Store → Store → Prop :=
  Relation.ReflTransGen fun a b => ∃ req res, good a req ∧ Proc.Outcome (handle env calculateDigest req) a res b

theorem Run.proper {s₀ : Store} (hs : Proper s₀) (hrun : Run env calculateDigest (Orderly env) s₀ s) : Proper s := by
  induction hrun with
  | refl => exact hs
  | tail _ hstep ih =>
    obtain ⟨req, res, hreq, hout⟩ := hstep
    exact (request_answered ih hreq hout).1

/-- In an orderly run only sessions that are held are used, and no file elsewhere changes but for the blobs that are
committed. -/
theorem sessions_closed {s₀ : Store} (hs : Proper s₀) (hrun : Run env calculateDigest (Orderly env) s₀ s)
    {res : Except DockerError Unit}
    (hreq : Orderly env s req) (hout : Proc.Outcome (handle env calculateDigest req) s res s') : Answered env s req res s' :=
  (request_answered (hrun.proper hs) hreq hout).2

/-! #### A session that is not there -/

theorem proper_empty : Proper Store.empty := ⟨⟨nofun, nofun⟩, nofun, nofun⟩

/-- A session is begun, and the blob of nothing is committed from it. -/
def beginOne : Request := .post "app/open" "1" "" ⟨[], 0⟩

def putNothing : Request := .put "app/open" "1" (letterDigest []) ⟨[], 0⟩

/-- The blob, under the name of a session. -/
def patchBlob : Request := .patch "app/open" "../blobs/sha256/e3b0c44298fc1c149afbf4c8996fb92427ae41e4649b934ca495991b7852b855" ⟨[97], 0⟩

/-- What the requests leave when nothing fails. -/
def afterAll (reqs : List Request) : Store := reqs.foldl
    (fun s req => ((handle layerEnv letterDigest req).exec (fun _ => false) s).2) Store.empty

/-- Any upload request; a `POST` makes a new name. -/
def Sent (_ : Store) : Request → Prop
  | .post _ id _ _ => plainID id = true
  | .patch .. | .put .. | .status .. | .cancel .. => True
  | _ => False

theorem run_concat {good : Store → Request → Prop} (l : List Request) {req : Request}
    (hrun : Run layerEnv letterDigest good Store.empty (afterAll l)) (hreq : good (afterAll l) req) :
    Run layerEnv letterDigest good Store.empty (afterAll (l ++ [req])) := by
  rw [afterAll, List.foldl_append]
  exact hrun.tail ⟨req, _, hreq, .of_exec _ _⟩

/-- The session that was begun gets a byte; another one is refused while there is no directory. -/
theorem sessions_closed_patch :
    (∃ s', Proc.Outcome (handle layerEnv letterDigest (.patch "app/open" "1" ⟨[97], 0⟩)) (afterAll [beginOne])
      (.ok ()) s' ∧ ("app", "1") ∈ (afterAll [beginOne]).sessions) ∧
    ∃ res s', Proc.Outcome (handle layerEnv letterDigest (.patch "app/open" "2" ⟨[97], 0⟩)) Store.empty res s' ∧
      Request.Refused layerEnv (.patch "app/open" "2" ⟨[97], 0⟩) res := by
  have hrepo : (parseRepositoryAndImage "app/open").1 = "app" := by decide +kernel
  constructor
  · have hok : ((handle layerEnv letterDigest (.patch "app/open" "1" ⟨[97], 0⟩)).exec (fun _ => false)
        (afterAll [beginOne])).1 = .ok () := by
      decide +kernel
    have hbegun : Run layerEnv letterDigest (Orderly layerEnv) Store.empty (afterAll [beginOne]) :=
      run_concat [] .refl (show plainID "1" = true by decide)
    have hheld : Orderly layerEnv (afterAll [beginOne]) (.patch "app/open" "1" ⟨[97], 0⟩) := by
      refine .inl fun _ => ?_
      rw [hrepo]
      decide +kernel
    have hout := Proc.Outcome.of_exec (p := handle layerEnv letterDigest (.patch "app/open" "1" ⟨[97], 0⟩))
      (fun _ => false) (afterAll [beginOne])
    rw [hok] at hout
    refine ⟨_, hout, (sessions_closed proper_empty hbegun hheld hout).accepted ("app", "1") ?_ rfl⟩
    show some ((parseRepositoryAndImage "app/open").1, "1") = _
    rw [hrepo]
  · have hclosed : Orderly layerEnv Store.empty (.patch "app/open" "2" ⟨[97], 0⟩) :=
      .inr (show _ = false by decide +kernel)
    have hout := Proc.Outcome.of_exec (p := handle layerEnv letterDigest (.patch "app/open" "2" ⟨[97], 0⟩))
      (fun _ => false) Store.empty
    exact ⟨_, _, hout, (sessions_closed proper_empty .refl hclosed hout).refused _ rfl nofun⟩

/-- A name that no `POST` has made is accepted, and stands for a blob. -/
theorem session_forged :
    ¬∀ (env : Env) (calculateDigest : List UInt8 → String) s req res s', Run env calculateDigest Sent Store.empty s →
      Sent s req → Proc.Outcome (handle env calculateDigest req) s res s' → Answered env s req res s' := by
  intro hall
  have hrun : Run layerEnv letterDigest Sent Store.empty (afterAll [beginOne, putNothing]) :=
    run_concat [beginOne] (run_concat [] .refl (show plainID "1" = true by decide)) trivial
  have hok : ((handle layerEnv letterDigest patchBlob).exec (fun _ => false) (afterAll [beginOne, putNothing])).1 =
    .ok () := by decide +kernel
  have hout := Proc.Outcome.of_exec (p := handle layerEnv letterDigest patchBlob) (fun _ => false)
    (afterAll [beginOne, putNothing])
  rw [hok] at hout
  have hsessions : (afterAll [beginOne, putNothing]).sessions = [] := by decide +kernel
  have hmem := (hall layerEnv letterDigest _ patchBlob _ _ hrun trivial hout).accepted _ rfl rfl
  rw [hsessions] at hmem
  cases hmem

end Requests

end Renop.DockerStore
