import Renop.StorageQueue

/-!
# The queue through uploads

An upload keeps the queue, whichever step of it fails and wherever the process stops. What it stages has a new name or
belongs to a row that is still `queued`; a new row has a key that no other active row has.
-/

namespace Renop.Storage
open Crash Renop.Index

section Uploads
variable {crypto : Crypto} {claims : List Claim} {observed : List GPGRelease} {S : Nat → Prop}

theorem Queue.quiet {α : Type} {m : StoreM α} (h : Prog.Within (Trace Event.Quiet) m) :
    Safe (Queue crypto claims observed S) (Queue crypto claims observed S) m fun _ => Queue crypto claims observed S :=
  .of_within h (fun _ _ hs ht => hs.sameQueue (ht.sameQueue fun _ h => h)) fun _ h => h

/-- The release that an upload joins: a queued row, or one that is not saved yet. -/
def Joinable (s : Store) (r : GPGRelease) : Prop := (r ∈ s.releases ∧ r.status = .queued) ∨ IsNew s r

theorem Joinable.mono {s s' : Store} {r : GPGRelease} (h : Joinable s r) (hrel : s'.releases = s.releases)
    (hu : s.uuids ≤ s'.uuids) : Joinable s' r := by
  refine h.imp (fun h => by rw [hrel]; exact h) fun h =>
    ⟨?_, Nat.lt_of_lt_of_le h.fresh hu, ?_, h.active, h.status, h.cleanup⟩
  · rw [hrel]; exact h.id
  · rw [hrel]; exact h.key

theorem Queue.saveJoined {s : Store} (h : Queue crypto claims observed S s) {r r' : GPGRelease} (hj : Joinable s r)
    (hid : r'.id = r.id) (hkey : r'.activeKey = r.activeKey) (hst : r'.status = r.status)
    (hcl : r'.cleanupPending = r.cleanupPending) (ho : Owns s r') :
    Queue crypto claims observed S (s.saveRelease r') ∧
      ∀ q ∈ (s.saveRelease r').releases, q.id = r'.id → q.status = .queued := by
  have hqueued : r'.status = .queued := by
    rw [hst]
    rcases hj with ⟨-, hq⟩ | hn
    exacts [hq, hn.status]
  refine ⟨?_, fun q hq hqid => ?_⟩
  · rcases hj with ⟨hr, hq⟩ | hn
    · have hnot : r.cleanupPending ≠ true := by
        intro hc
        have := h.cleanup r hr hc
        rw [hq] at this
        exact this
      refine h.saveUpdate hr ⟨hid.symm, .inl hkey, fun _ => ?_, fun hc => absurd (hcl.symm.trans hc) hnot, ?_, ?_, ?_⟩ ho
      · rw [hkey]; exact h.active r hr (by rw [hq]; exact id)
      · intro hs; rw [hqueued] at hs; cases hs
      · intro ht; rw [hq] at ht; exact ht.elim
      · intro hv; rw [hq] at hv; cases hv
    · exact h.saveNew ⟨by rw [hid]; exact hn.id, by rw [hid]; exact hn.fresh, by rw [hkey]; exact hn.key,
        by rw [hkey]; exact hn.active, hqueued, hcl.trans hn.cleanup⟩ ho
  · rcases mem_saveRelease hq with ⟨-, hne⟩ | ⟨u, rfl⟩
    exacts [absurd hqid hne, hqueued]

theorem safe_newGPGRelease (repository artifactPath username : String) (now : Int) :
    Safe (Queue crypto claims observed S)
      (fun s => Queue crypto claims observed S s ∧ s.activeRelease? (artifactKey repository artifactPath) = none)
      (newGPGRelease repository artifactPath username now)
      fun r s => Queue crypto claims observed S s ∧ IsNew s r ∧ r.artifact.stagingPath = none ∧
        r.signature.stagingPath = none ∧ r.status = .queued := by
  have hI : ∀ s, Queue crypto claims observed S s ∧ s.activeRelease? (artifactKey repository artifactPath) = none →
      Queue crypto claims observed S s := fun _ h => h.1
  refine .bind (Safe.query _ hI (Q := fun _ s => Queue crypto claims observed S s ∧
    s.activeRelease? (artifactKey repository artifactPath) = none) fun s hs => hs) fun counts => ?_
  dsimp only
  split
  · exact Safe.throw _ hI
  refine .bind (Q := fun id s => Queue crypto claims observed S s ∧
    s.activeRelease? (artifactKey repository artifactPath) = none ∧ id + 1 = s.uuids ∧ ∀ q ∈ s.releases,
      q.id < id) ?_ ?_
  · refine .bind (.read (Q := fun uuid s => (Queue crypto claims observed S s ∧
      s.activeRelease? (artifactKey repository artifactPath) = none) ∧ uuid = s.uuids) fun s hs => ⟨hs, rfl⟩)
        fun uuid => ?_
    refine .bind (.modify (Q := fun _ s => Queue crypto claims observed S s ∧
      s.activeRelease? (artifactKey repository artifactPath) = none ∧ uuid + 1 = s.uuids ∧ ∀ q ∈ s.releases,
        q.id < uuid)
      fun s hs => ?_) fun _ => .pure _ fun s hs => hs
    obtain ⟨⟨h1, h2⟩, rfl⟩ := hs
    exact ⟨h1.sameQueue ⟨rfl, rfl, Nat.le_succ _⟩, h2, rfl, h1.fresh⟩
  · intro id
    refine .pure _ fun s hs => ⟨hs.1, ⟨fun q hq => ?_, ?_, fun q hq hk => ?_, rfl, rfl, rfl⟩, rfl, rfl, rfl⟩
    · exact Nat.ne_of_lt (hs.2.2.2 q hq)
    · show id < s.uuids
      rw [← hs.2.2.1]; exact Nat.lt_succ_self id
    · have hnone := List.find?_eq_none.1 hs.2.1 q hq
      exact hnone (by simpa using hk)

/-- The quarantined file has a new name that no row refers to. -/
structure FreshPath (s : Store) (r : GPGRelease) (part : Part) (path : StagingPath) : Prop where
  release : path.release = r.id
  name : ∃ uuid, path.name = .upload part uuid ∧ uuid < s.uuids
  unused : ∀ q ∈ s.releases, ∀ part, (q.part part).stagingPath ≠ some path

theorem safe_moveUploadToQuarantine (r : GPGRelease) (part : Part) (bytes : Bytes) :
    Safe (Queue crypto claims observed S)
      (fun s => Queue crypto claims observed S s ∧ Joinable s r ∧ Owns s r) (moveUploadToQuarantine r.id part bytes)
      fun path s => Queue crypto claims observed S s ∧ Joinable s r ∧ Owns s r ∧ FreshPath s r part path := by
  refine .bind (Safe.act _ (fun _ h => h.1) (Q := fun _ s => Queue crypto claims observed S s ∧ Joinable s r ∧ Owns s r)
    fun s hs => hs) fun _ => ?_
  refine .bind (Q := fun uuid s => Queue crypto claims observed S s ∧ Joinable s r ∧ Owns s r ∧
    FreshPath s r part ⟨r.id, .upload part uuid⟩) ?_ fun uuid => ?_
  · refine .bind (.read (Q := fun uuid s => (Queue crypto claims observed S s ∧ Joinable s r ∧ Owns s r) ∧
      uuid = s.uuids) fun s hs => ⟨hs, rfl⟩) fun uuid => ?_
    refine .bind (.modify (Q := fun _ s => Queue crypto claims observed S s ∧ Joinable s r ∧ Owns s r ∧
      FreshPath s r part ⟨r.id, .upload part uuid⟩) fun s hs => ?_) fun _ => .pure _ fun s hs => hs
    obtain ⟨⟨h1, h2, h3⟩, rfl⟩ := hs
    refine ⟨h1.sameQueue ⟨rfl, rfl, Nat.le_succ _⟩, h2.mono rfl (Nat.le_succ _), h3.mono (Nat.le_succ _), rfl,
      ⟨_, rfl, Nat.lt_succ_self _⟩, fun q hq part' hp => ?_⟩
    obtain ⟨-, uuid, hname, hlt⟩ := h1.own q hq part' _ hp
    injection hname with _ hu
    omega
  · refine .bind (Safe.act _ (fun _ h => h.1) (Q := fun _ s => Queue crypto claims observed S s ∧ Joinable s r ∧
      Owns s r ∧ FreshPath s r part ⟨r.id, .upload part uuid⟩) fun s hs => ?_) fun _ => .pure _ fun s hs => hs
    obtain ⟨h1, h2, h3, h4⟩ := hs
    exact ⟨h1.stage bytes h4.unused, h2.mono rfl (Nat.le_refl _), h3.mono (Nat.le_refl _), h4.release, h4.name, h4.unused⟩

theorem quiet_blockReleasePaths (r : GPGRelease) : Prog.Within (Trace Event.Quiet) (blockReleasePaths r) :=
  .forEach (Trace.frame _) fun path _ => within_updateIndex fun _ => Trace.single (e := .block path) trivial rfl

theorem Owns.withUpload {s : Store} {r : GPGRelease} (h : Owns s r) (repo : Repository) (upload : PreparedUpload)
    {part : Part} {path : StagingPath} (hp : FreshPath s r part path) (artifactExists : Bool) :
    Owns s (r.withUpload repo upload part path artifactExists) := by
  intro part' path' hpath
  cases part with
  | signature =>
    cases part' with
    | signature =>
      injection hpath with hpath
      rw [← hpath]; exact ⟨hp.release, hp.name⟩
    | artifact =>
      refine h .artifact path' ?_
      revert hpath
      show (if r.artifact.stagingPath = none then { r.artifact with existed := artifactExists }
        else r.artifact).stagingPath = some path' → _
      split <;> exact id
  | artifact =>
    cases part' with
    | artifact =>
      injection hpath with hpath
      rw [← hpath]; exact ⟨hp.release, hp.name⟩
    | signature => exact h .signature path' hpath

theorem withUpload_same (r : GPGRelease) (repo : Repository) (upload : PreparedUpload) (part : Part) (path : StagingPath)
    (artifactExists : Bool) :
    (r.withUpload repo upload part path artifactExists).id = r.id ∧
      (r.withUpload repo upload part path artifactExists).activeKey = r.activeKey ∧
      (r.withUpload repo upload part path artifactExists).status = r.status ∧
      (r.withUpload repo upload part path artifactExists).cleanupPending = r.cleanupPending ∧
      (r.withUpload repo upload part path artifactExists).localArtifactPath = r.localArtifactPath := by
  cases part <;> exact ⟨rfl, rfl, rfl, rfl, rfl⟩

theorem safe_getActiveGPGRelease {J : Store → Prop} (key : String) :
    Safe J J (getActiveGPGRelease (some key)) fun r s => J s ∧ r = s.activeRelease? key :=
  Safe.query _ (fun _ h => h) fun _ hs => ⟨hs, rfl⟩

theorem activeRelease?_mem {s : Store} {key : String} {r : GPGRelease} (h : some r = s.activeRelease? key) :
    r ∈ s.releases ∧ r.activeKey = some key :=
  ⟨List.mem_of_find?_eq_some h.symm, by simpa using List.find?_some h.symm⟩

theorem safe_joinGPGRelease (upload : PreparedUpload) (repository artifactPath : String) (now : Int) :
    Safe (Queue crypto claims observed S) (Queue crypto claims observed S)
      (joinGPGRelease upload repository artifactPath now)
      fun r s => Queue crypto claims observed S s ∧ Joinable s r ∧ Owns s r := by
  refine .bind (safe_getActiveGPGRelease _) fun active => ?_
  cases active with
  | some r =>
    dsimp only
    split
    · exact Safe.throw _ fun _ h => h.1
    · rename_i hok
      refine .pure _ fun s hs => ?_
      obtain ⟨hr, -⟩ := activeRelease?_mem hs.2
      exact ⟨hs.1, .inl ⟨hr, by_contra fun h => hok (.inl h)⟩, hs.1.own r hr⟩
  | none =>
    refine Prog.Spec.conseq (safe_newGPGRelease repository artifactPath upload.username now)
      (fun s hs => ⟨hs.1, hs.2.symm⟩) fun r s hs => ⟨hs.1, .inr hs.2.1, fun part path hp => ?_⟩
    cases part
    · exact absurd (hs.2.2.1.symm.trans hp) nofun
    · exact absurd (hs.2.2.2.1.symm.trans hp) nofun

theorem safe_removeReplaced (old : Option StagingPath) (path : StagingPath) (id : Nat) :
    Safe (Queue crypto claims observed S)
      (fun s => Queue crypto claims observed S s ∧ (∀ q ∈ s.releases, q.id = id → q.status = .queued) ∧
        ∀ p, old = some p → p.release = id)
      (removeReplaced old path) fun _ => Queue crypto claims observed S := by
  unfold removeReplaced
  split
  · split
    · refine Safe.ignore (Safe.act _ (fun _ h => h.1) fun s hs => ?_) fun _ h => h
      obtain ⟨h, hqueued, hold⟩ := hs
      refine h.unstage fun q hq hv part hp => ?_
      have := hqueued q hq ((h.own q hq part _ hp).1.symm.trans (hold _ rfl))
      rw [hv] at this
      cases this
    · exact .pure _ fun _ h => h.1
  · exact .pure _ fun _ h => h.1

theorem safe_enqueueGPGRelease (repo : Repository) (upload : PreparedUpload) (bytes : Bytes)
    (repository artifactPath : String) (part : Part) (now : Int) :
    Safe (Queue crypto claims observed S) (Queue crypto claims observed S)
      (enqueueGPGRelease repo upload bytes repository artifactPath part now) fun _ => Queue crypto claims observed S := by
  refine .bind (safe_joinGPGRelease upload repository artifactPath now) fun r => ?_
  refine .bind (safe_moveUploadToQuarantine r part bytes) fun path => ?_
  refine .bind (.read (Q := fun _ s => Queue crypto claims observed S s ∧ Joinable s r ∧ Owns s r ∧
    FreshPath s r part path) fun s hs => hs) fun artifactExists => ?_
  obtain ⟨hid, hkey, hst, hcl, -⟩ := withUpload_same r repo upload part path artifactExists
  -- a failed save leaves the joinable release and the fresh path as they were
  refine .bind (@Prog.Spec.attempt _ _ _ _ _ (fun s => Queue crypto claims observed S s ∧ FreshPath s r part path) _
    (fun _ s => Queue crypto claims observed S s ∧ (∀ q ∈ s.releases, q.id = r.id → q.status = .queued) ∧
      ∀ old, (r.part part).stagingPath = some old → old.release = r.id) _
    (Safe.act _ (fun s hs => ⟨hs.1, hs.2.2.2⟩) fun s hs => ?_) fun _ h => h.1) fun saved => ?_
  · obtain ⟨h1, h2, h3, h4⟩ := hs
    obtain ⟨h5, h6⟩ := h1.saveJoined h2 hid hkey hst hcl (h3.withUpload repo upload h4 artifactExists)
    exact ⟨h5, fun q hq hqid => h6 q hq (hqid.trans hid.symm), fun old hold => (h3 part old hold).1⟩
  · cases saved with
    | error e =>
      refine .bind (Q := fun _ => Queue crypto claims observed S) (Safe.ignore (Safe.act _ (fun _ h => h.1.1) fun s hs => ?_)
        fun _ h => h) fun _ => Safe.throw _ fun _ h => h
      exact hs.1.1.unstage fun q hq _ part => hs.1.2.unused q hq part
    | ok _ =>
      refine .bind (safe_removeReplaced _ path r.id) fun _ => ?_
      exact .bind (Queue.quiet (quiet_blockReleasePaths _)) fun _ => .pure _ fun _ h => h

theorem safe_companionRelease (repo : Repository) (upload : PreparedUpload) (repository artifactPath : String) (now : Int) :
    Safe (Queue crypto claims observed S) (Queue crypto claims observed S)
      (companionRelease repo upload repository artifactPath now)
      fun result s => Queue crypto claims observed S s ∧ ∀ r, result = some (r, true) → IsNew s r ∧ Owns s r := by
  refine .bind (safe_getActiveGPGRelease _) fun active => ?_
  cases active with
  | some r =>
    dsimp only
    split
    · exact Safe.throw _ fun _ h => h.1
    · exact .pure _ fun s hs => ⟨hs.1, fun r h => by simp at h⟩
  | none =>
    dsimp only
    split
    · exact .pure _ fun s hs => ⟨hs.1, fun r h => by simp at h⟩
    refine .bind (.read (Q := fun _ s => Queue crypto claims observed S s ∧
      none = s.activeRelease? (artifactKey repository artifactPath)) fun s hs => hs) fun present => ?_
    split
    · exact .pure _ fun s hs => ⟨hs.1, fun r h => by simp at h⟩
    refine .bind (Prog.Spec.conseq (safe_newGPGRelease repository artifactPath upload.username now)
      (fun s hs => ⟨hs.1, hs.2.symm⟩) fun _ _ h => h) fun r => ?_
    refine .pure _ fun s hs => ⟨hs.1, fun r' hr' => ?_⟩
    simp only [Option.some.injEq, Prod.mk.injEq, and_true] at hr'
    obtain ⟨h1, h2, h3, h4, -⟩ := hs
    rw [← hr']
    refine ⟨⟨h2.id, h2.fresh, h2.key, h2.active, h2.status, h2.cleanup⟩, fun part path hp => ?_⟩
    cases part
    · exact absurd (h3.symm.trans hp) nofun
    · exact absurd (h4.symm.trans hp) nofun

theorem Rows.companion_unused {s : Store} (h : Rows S s) (release : Nat) (part : Part) (digest : Digest) :
    ∀ r ∈ s.releases, ∀ part', (r.part part').stagingPath ≠ some ⟨release, .companion part digest⟩ := by
  intro r hr part' hp
  obtain ⟨-, uuid, hname, -⟩ := h.own r hr part' _ hp
  cases hname

theorem safe_enqueueGPGCompanion (repo : Repository) (upload : PreparedUpload) (bytes : Bytes)
    (repository artifactPath : String) (part : Part) (digest : Digest) (now : Int) :
    Safe (Queue crypto claims observed S) (Queue crypto claims observed S)
      (enqueueGPGCompanion repo upload bytes repository artifactPath part digest now)
      fun _ => Queue crypto claims observed S := by
  refine .bind (safe_companionRelease repo upload repository artifactPath now) fun result => ?_
  rcases result with - | ⟨r, isNew⟩
  · exact .pure _ fun _ h => h.1
  let P (s : Store) : Prop := Queue crypto claims observed S s ∧ (isNew = true → IsNew s r ∧ Owns s r)
  refine .bind (Q := fun _ => P) (Safe.act _ (fun _ h => h.1) fun s hs => ⟨hs.1, fun hn => hs.2 r (by rw [hn])⟩) fun _ =>
    ?_
  refine .bind (Q := fun _ => P) (Safe.act _ (fun _ h => h.1) fun s hs =>
    ⟨hs.1.stage bytes (hs.1.companion_unused _ _ _), fun hn => ?_⟩) fun _ => ?_
  · obtain ⟨h1, h2⟩ := hs.2 hn
    exact ⟨⟨h1.id, h1.fresh, h1.key, h1.active, h1.status, h1.cleanup⟩, h2⟩
  have hsave : Safe P P (if isNew then saveGPGRelease r else pure ()) fun _ => Queue crypto claims observed S := by
    split
    · rename_i hn
      exact Safe.act _ (fun _ h => h) fun s hs => hs.1.saveNew (hs.2 hn).1 (hs.2 hn).2
    · exact .pure _ fun _ h => h.1
  refine .bind (Prog.Spec.attempt hsave fun _ h => h.1) fun saved => ?_
  cases saved with
  | error e =>
    refine .bind (Q := fun _ => Queue crypto claims observed S) (Safe.ignore (Safe.act _ (fun _ h => h.1.1) fun s hs =>
      hs.1.1.unstage fun q hq _ => hs.1.1.companion_unused _ _ _ q hq) fun _ h => h) fun _ => Safe.throw _ fun _ h => h
  | ok _ => exact .bind (Queue.quiet (quiet_blockReleasePaths _)) fun _ => .pure _ fun _ h => h

theorem quiet_commitUploadedFile (path : String) (bytes : Bytes) (size modTime : Int) (existed wantChecksums : Bool)
    (digests : Option ContentDigests) :
    Prog.Within (Trace Event.Quiet) (commitUploadedFile path bytes size modTime existed wantChecksums digests) :=
  within_commitUploadedFile (p := fun _ => True) (fun _ h => h.quiet) trivial bytes size modTime existed
    (fun _ _ _ => trivial) (fun _ _ _ _ => trivial) digests

theorem quiet_removeArtifactSignature (repository artifactPath path : String) :
    Prog.Within (Trace Event.Quiet) (removeArtifactSignature repository artifactPath path) :=
  within_removeArtifactSignature (p := fun _ => True) (fun _ h => h.quiet) _ _ fun _ _ => trivial

theorem quiet_removeArtifactGPGSignature (path : String) :
    Prog.Within (Trace Event.Quiet) (removeArtifactGPGSignature path) :=
  within_removeArtifactGPGSignature (p := fun _ => True) (fun _ h => h.quiet) fun _ _ => trivial

theorem safe_processProtectedFile (repo : Repository) (upload : PreparedUpload) (bytes : Bytes)
    (repository relPath : String) (now : Int) :
    Safe (Queue crypto claims observed S) (Queue crypto claims observed S)
      (processProtectedFile repo upload bytes repository relPath now) fun _ => Queue crypto claims observed S := by
  have hcommit : Safe (Queue crypto claims observed S) (Queue crypto claims observed S)
      (commitUpload upload bytes >>= fun _ => (pure .published : StoreM GPGUploadResult))
      fun _ => Queue crypto claims observed S :=
    .bind (Queue.quiet (quiet_commitUploadedFile _ _ _ _ _ _ _)) fun _ => .pure _ fun _ h => h
  unfold processProtectedFile
  split
  · split
    · exact Safe.throw _ fun _ h => h
    refine .bind (safe_enqueueGPGCompanion repo upload bytes repository _ _ _ now) fun result => ?_
    cases result with
    | none => exact hcommit
    | some r => exact .pure _ fun _ h => h
  · dsimp only
    split
    · refine .bind (Prog.Spec.conseq (safe_getActiveGPGRelease _) (fun _ h => h) fun _ _ h => h.1) fun active => ?_
      cases active with
      | some r => exact Safe.throw _ fun _ h => h
      | none => exact .bind (Queue.quiet (.mapError (quiet_removeArtifactGPGSignature _) _)) fun _ => hcommit
    split
    · exact Safe.throw _ fun _ h => h
    split
    · exact Safe.throw _ fun _ h => h
    · exact .bind (safe_enqueueGPGRelease repo upload bytes repository _ _ now) fun _ => .pure _ fun _ h => h

theorem safe_processUploadedFileLocked (repo : Repository) (upload : PreparedUpload) (now : Int) :
    Safe (Queue crypto claims observed S) (Queue crypto claims observed S)
      (processUploadedFileLocked repo upload now) fun _ => Queue crypto claims observed S := by
  have hcommit : ∀ bytes checksums digests, Safe (Queue crypto claims observed S) (Queue crypto claims observed S)
      (commitUploadedFile upload.localFilePath bytes upload.fileSize upload.modTime upload.existed checksums digests >>=
        fun _ => (pure .published : StoreM GPGUploadResult)) fun _ => Queue crypto claims observed S :=
    fun bytes checksums digests =>
      .bind (Queue.quiet (quiet_commitUploadedFile _ _ _ _ _ _ _)) fun _ => .pure _ fun _ h => h
  unfold processUploadedFileLocked
  split
  · exact Safe.throw _ fun _ h => h
  refine .bind (Q := fun _ => Queue crypto claims observed S) (Safe.act _ (fun _ h => h) fun _ h => h) fun _ => ?_
  refine .bind (.read (Q := fun _ => Queue crypto claims observed S) fun _ h => h) fun current => ?_
  split
  · exact Safe.throw _ fun _ h => h
  split
  · exact Safe.throw _ fun _ h => h
  split
  · exact hcommit _ _ _
  dsimp only
  split
  · exact Safe.throw _ fun _ h => h
  split
  · exact hcommit _ _ _
  split
  · exact Safe.throw _ fun _ h => h
  refine .bind (.read (Q := fun _ => Queue crypto claims observed S) fun _ h => h) fun repo' => ?_
  split
  · exact Safe.throw _ fun _ h => h
  · exact safe_processProtectedFile _ upload _ _ _ now

theorem safe_orAbort {α : Type} (path : String) (preparation : MavenPublicationPreparation) {m : StoreM α}
    (h : Safe (Queue crypto claims observed S) (Queue crypto claims observed S) m fun _ => Queue crypto claims observed S) :
    Safe (Queue crypto claims observed S) (Queue crypto claims observed S) (orAbort path preparation m)
      fun _ => Queue crypto claims observed S := by
  refine .bind (Prog.Spec.attempt h fun _ h => h) fun r => ?_
  cases r with
  | ok a => exact .pure _ fun _ h => h
  | error e =>
    refine Prog.Spec.conseq (.bind (Queue.quiet (within_abortMavenPublication (p := fun _ => True)
      (fun _ h => h.quiet) trivial preparation)) fun _ => Safe.throw _ fun _ h => h) (fun _ h => h.1) fun _ _ h => h

theorem safe_upload (repo : Repository) (upload : PreparedUpload) (now : Int) :
    Safe (Queue crypto claims observed S) (Queue crypto claims observed S)
      (processUploadedFileWithReviewLocked repo upload now) fun _ => Queue crypto claims observed S := by
  have hguard : Prog.Within (Trace Event.Quiet) (guardUpload repo upload.localFilePath) := by
    unfold guardUpload
    split
    · exact .pure (Trace.frame _) ()
    split
    · exact .throw (Trace.frame _) _
    · exact within_ensurePathMutable (Trace.frame _) _ _
  have hreserve : Prog.Within (Trace Event.Quiet) (reserveUploadedFileQuota upload) := by
    unfold reserveUploadedFileQuota
    split
    · exact .throw (Trace.frame _) _
    · exact within_act (Trace.frame _) _ fun s => (Trace.frame _).refl s
  refine .bind (Queue.quiet hguard) fun _ => ?_
  refine .bind (Queue.quiet (within_prepareMavenPublication (p := fun _ => True) (fun _ h => h.quiet) repo trivial))
    fun preparation => ?_
  have hstore : Safe (Queue crypto claims observed S) (Queue crypto claims observed S) (storeUpload repo upload now)
      fun _ => Queue crypto claims observed S :=
    .bind (Queue.quiet hreserve) fun _ => .bind (Safe.act (Q := fun _ => Queue crypto claims observed S) _ (fun _ h => h)
      fun _ h => h) fun _ => safe_processUploadedFileLocked repo upload now
  refine .bind (safe_orAbort _ _ hstore) fun result => ?_
  cases result with
  | published =>
    refine .bind (Queue.quiet (within_finishMavenPublication (p := fun _ => True) (fun _ h => h.quiet)
      (fun _ h => h.quiet) (fun _ h => h.quiet) repo upload trivial preparation now)) fun review => ?_
    cases review with
    | some id => exact .pure _ fun _ h => h
    | none => exact .pure _ fun _ h => h
  | releasePending id => exact .pure _ fun _ h => h
  | reviewPending id => exact .pure _ fun _ h => h

end Uploads

end Renop.Storage
