import Renop.StorageWorld
import Mathlib.Logic.Relation

/-!
# What the storage functions touch

Every change that a function makes to the store is a sequence of `Event`s. `Trace E` relates two stores by events of
`E`, and the footprint of a function is a set `E` with `Within (Trace E)`. What no event of `E` changes is then left
alone by the function, at every error and at every crash.
-/

namespace Renop.Storage
open Crash Renop.Index

inductive Event
  | write (path : String) (file : StoredFile)
  | delete (path : String)
  | insertFile (path : String) (info : FileInfo)
  | removeFile (path : String)
  | ensureParents (path : String)
  | block (path : String)
  | unblock (path : String)
  | signature (key : String) (record : Option GPGSignature)
  | uuid
  | stage (path : StagingPath) (bytes : Bytes)
  | unstage (path : StagingPath)
  | clearQuarantine (release : Nat)
  | save (r : GPGRelease)
  | reviews (rs : List ReviewTask)
  | versions (vs : List MavenVersion)

namespace Event

def apply (s : Store) : Event → Store
  | write path file => { s with files := s.files.insert path file }
  | delete path => s.remove path
  | insertFile path info => { s with index := s.index.insertFile path info }
  | removeFile path => { s with index := s.index.removeFile path }
  | ensureParents path => { s with index := s.index.ensureParentDirs path }
  | block path => { s with index := s.index.blockFile path }
  | unblock path => { s with index := s.index.unblockFile path }
  | signature key record => { s with signatures := fun k => if k = key then record else s.signatures k }
  | uuid => { s with uuids := s.uuids + 1 }
  | stage path bytes => s.stage path bytes
  | unstage path => s.unstage path
  | clearQuarantine release => s.clearQuarantine release
  | save r => s.saveRelease r
  | reviews rs => { s with reviews := rs }
  | versions vs => { s with versions := vs }

/-- The stored files and their index entries at the paths of `p`, and signature records. -/
def OnFiles (p : String → Prop) : Event → Prop
  | write path _ | delete path | insertFile path _ | removeFile path => p path
  | ensureParents _ | signature .. => True
  | _ => False

/-- The index entries at the paths of `p`, and nothing stored. -/
def OnIndex (p : String → Prop) : Event → Prop
  | insertFile path _ | block path | unblock path => p path
  | ensureParents _ => True
  | _ => False

/-- The review tables and the catalog. -/
def OnReviews : Event → Prop
  | uuid | reviews _ | versions _ => True
  | _ => False

end Event

/-- The second store comes from the first by events of `E`. -/
def Trace (E : Event → Prop) : Store → Store → Prop :=
  Relation.ReflTransGen fun s s' => ∃ e, E e ∧ s' = e.apply s

namespace Trace
variable {E E' : Event → Prop} {s s' : Store}

theorem frame (E : Event → Prop) : Prog.Frame (Trace E) :=
  ⟨fun _ => .refl, fun _ _ _ h h' => h.trans h'⟩

theorem single {e : Event} (he : E e) (h : s' = e.apply s) : Trace E s s' :=
  Relation.ReflTransGen.single ⟨e, he, h⟩

theorem rel {R : Store → Store → Prop} (hR : Prog.Frame R) (h : ∀ s e, E e → R s (e.apply s)) (ht : Trace E s s') :
    R s s' := by
  induction ht with
  | refl => exact hR.refl _
  | tail _ hstep ih =>
    obtain ⟨e, he, rfl⟩ := hstep
    exact hR.trans _ _ _ ih (h _ e he)

theorem keeps {τ : Type} {f : Store → τ} (h : ∀ s e, E e → f (e.apply s) = f s) (ht : Trace E s s') : f s' = f s :=
  rel (Prog.Frame.keeps f) h ht

end Trace

/-! ### Primitive steps -/

section Steps
variable {R : Store → Store → Prop} {E : Event → Prop} {α : Type}

theorem within_act (hR : Prog.Frame R) (site : Site) {f : Store → Store} (h : ∀ s, R s (f s)) :
    Prog.Within R (act site f) := by
  refine .step hR fun s a s' hs => ?_
  cases hs
  exact h s

theorem within_query (hR : Prog.Frame R) (site : Site) (f : Store → α) : Prog.Within R (query site f) := by
  refine .step hR fun s a s' hs => ?_
  cases hs
  exact hR.refl s

theorem within_updateIndex {f : FileIndex → FileIndex} (h : ∀ s, R s { s with index := f s.index }) :
    Prog.Within R (updateIndex f) :=
  .modify h

theorem within_tryAll (hR : Prog.Frame R) (keep : StorageError → StorageError → StorageError) {ms : List (StoreM Unit)}
    (h : ∀ m ∈ ms, Prog.Within R m) (acc : Option StorageError) : Prog.Within R (tryAll keep ms acc) := by
  induction ms generalizing acc with
  | nil =>
    cases acc with
    | none => exact .pure hR ()
    | some e => exact .throw hR e
  | cons m ms ih =>
    refine .bind hR (.attempt (h m (List.mem_cons_self ..))) fun r => ?_
    have hms : ∀ m' ∈ ms, Prog.Within R m' := fun m' hm => h m' (List.mem_cons_of_mem _ hm)
    cases r with
    | ok _ => exact ih hms acc
    | error e => exact ih hms _

theorem within_newUUID (hE : E .uuid) : Prog.Within (Trace E) newUUID := by
  refine .bind (Trace.frame E) (.read (Trace.frame E) _) fun uuid => ?_
  exact .bind (Trace.frame E) (.modify fun s => Trace.single hE rfl) fun _ => .pure (Trace.frame E) _

end Steps

/-! ### Files -/

section Files
variable {E : Event → Prop} {p : String → Prop}

theorem within_deleteGPGSignature (hE : ∀ key r, E (.signature key r)) (key : String) :
    Prog.Within (Trace E) (deleteGPGSignature key) :=
  within_act (Trace.frame E) _ fun _ => .single (hE key none) rfl

theorem within_deleteIndexedFile (hE : ∀ e, Event.OnFiles p e → E e) {path : String} (hp : p path) :
    Prog.Within (Trace E) (deleteIndexedFile path) := by
  refine .bind (Trace.frame E) (within_act (Trace.frame E) _ fun _ => .single (hE (.delete path) hp) rfl) fun _ => ?_
  refine .bind (Trace.frame E) (within_updateIndex fun _ => .single (hE (.removeFile path) hp) rfl) fun _ => ?_
  unfold deleteGPGRecordForLocalPath
  split
  · exact .pure (Trace.frame E) ()
  · exact within_deleteGPGSignature (fun key r => hE _ trivial) _

theorem within_removeArtifactCompanions (hE : ∀ e, Event.OnFiles p e → E e) {path : String}
    (hp : ∀ ext ∈ artifactCompanionExts, p (path ++ ext)) : Prog.Within (Trace E) (removeArtifactCompanions path) :=
  .forEach (Trace.frame E) fun ext hext => within_deleteIndexedFile hE (hp ext hext)

theorem within_removeArtifactSignature (hE : ∀ e, Event.OnFiles p e → E e) (repository artifactPath : String)
    {path : String} (hp : ∀ ext ∈ artifactCompanionExts, p (path ++ ext)) :
    Prog.Within (Trace E) (removeArtifactSignature repository artifactPath path) := by
  refine within_tryAll (Trace.frame E) _ (fun m hm => ?_) none
  rcases List.mem_append.1 hm with hm | hm
  · obtain ⟨suffix, hsuffix, rfl⟩ := List.mem_map.1 hm
    have hmem : ∀ suffix ∈ [".asc", ".asc.md5", ".asc.sha1", ".asc.sha256", ".asc.sha512"],
        suffix ∈ artifactCompanionExts := by decide
    exact within_deleteIndexedFile hE (hp suffix (hmem suffix hsuffix))
  · rw [List.mem_singleton.1 hm]
    exact within_deleteGPGSignature (fun key r => hE _ trivial) _

theorem digest_ext_mem (d : Digest) : d.ext ∈ artifactCompanionExts := by cases d <;> decide

theorem within_removeArtifactChecksums (hE : ∀ e, Event.OnFiles p e → E e) {path : String}
    (hp : ∀ ext ∈ artifactCompanionExts, p (path ++ ext)) : Prog.Within (Trace E) (removeArtifactChecksums path) := by
  refine within_tryAll (Trace.frame E) _ (fun m hm => ?_) none
  obtain ⟨d, -, rfl⟩ := List.mem_map.1 hm
  exact within_deleteIndexedFile hE (hp _ (digest_ext_mem d))

theorem within_saveAndUploadChecksum (hE : ∀ e, Event.OnFiles p e → E e) {path : String} (d : Digest)
    (hp : p (path ++ d.ext)) (hash : String) (now : Int) :
    Prog.Within (Trace E) (saveAndUploadChecksum path d hash now) :=
  .bind (Trace.frame E) (within_act (Trace.frame E) _ fun _ => .single (hE (.write _ ⟨hash, now⟩) hp) rfl) fun _ =>
    within_updateIndex fun _ => .single (hE (.insertFile _ _) hp) rfl

theorem within_reindexPathIfPresent (hE : ∀ e, Event.OnIndex p e → E e) {path : String} (hp : p path) :
    Prog.Within (Trace E) (reindexPathIfPresent path) := by
  refine .bind (Trace.frame E) (.read (Trace.frame E) _) fun blocked => ?_
  split
  · exact .pure (Trace.frame E) ()
  refine .bind (Trace.frame E) (.attempt (within_query (Trace.frame E) _ _)) fun r => ?_
  split
  · exact within_updateIndex fun s => (Trace.frame E).trans _ _ _ (Trace.single (hE (.ensureParents path) trivial) rfl)
      (Trace.single (hE (.insertFile path _) hp) rfl)
  · exact .pure (Trace.frame E) ()

theorem within_supersedeSnapshot (hE : ∀ e, Event.OnFiles p e → E e) {path : String} (existed : Bool)
    (hc : isArtifactCompanionPath path = false → ∀ ext ∈ artifactCompanionExts, p (path ++ ext))
    (hs : isArtifactCompanionPath path = false → ∀ children, ∀ child ∈ supersededBuilds path children,
      p ((splitPathParentBase path).1 ++ "/" ++ child)) : Prog.Within (Trace E) (supersedeSnapshot path existed) := by
  unfold supersedeSnapshot
  split
  · rename_i hsnap
    have hcomp : isArtifactCompanionPath path = false := by
      simp only [Bool.and_eq_true, Bool.not_eq_true'] at hsnap
      exact hsnap.2
    have hclean : Prog.Within (Trace E) (cleanupSupersededUniqueSnapshots path) :=
      .bind (Trace.frame E) (.read (Trace.frame E) _) fun children =>
        .forEach (Trace.frame E) fun child hchild => within_deleteIndexedFile hE (hs hcomp children child hchild)
    exact .bind (Trace.frame E) (.when (Trace.frame E) fun _ => within_removeArtifactCompanions hE (hc hcomp))
      fun _ => hclean
  · exact .pure (Trace.frame E) ()

theorem within_generateChecksums (hE : ∀ e, Event.OnFiles p e → E e) {path : String} (hp : p path)
    (hc : ∀ ext ∈ artifactCompanionExts, p (path ++ ext)) (digests : ContentDigests) (now : Int) :
    Prog.Within (Trace E) (generateChecksums path digests now) := by
  refine .bind (Trace.frame E) (.attempt (within_tryAll (Trace.frame E) _ (fun m hm => ?_) none)) fun r => ?_
  · obtain ⟨d, -, rfl⟩ := List.mem_map.1 hm
    exact within_saveAndUploadChecksum hE d (hc _ (digest_ext_mem d)) _ _
  · cases r with
    | ok _ => exact .pure (Trace.frame E) ()
    | error e =>
      refine within_tryAll (Trace.frame E) _ (fun m hm => ?_) _
      rcases List.mem_cons.1 hm with rfl | hm
      · exact within_deleteIndexedFile hE hp
      · obtain ⟨d, -, rfl⟩ := List.mem_map.1 hm
        exact within_deleteIndexedFile hE (hc _ (digest_ext_mem d))

theorem within_commitUploadedFile (hE : ∀ e, Event.OnFiles p e → E e) {path : String} (hp : p path) (bytes : Bytes)
    (size modTime : Int) (existed : Bool) {wantChecksums : Bool}
    (hc : wantChecksums = true ∨ isArtifactCompanionPath path = false → ∀ ext ∈ artifactCompanionExts,
      p (path ++ ext)) (hs : isArtifactCompanionPath path = false → ∀ children, ∀ child ∈ supersededBuilds path children,
      p ((splitPathParentBase path).1 ++ "/" ++ child)) (digests : Option ContentDigests) :
    Prog.Within (Trace E) (commitUploadedFile path bytes size modTime existed wantChecksums digests) := by
  have hF := Trace.frame E
  unfold commitUploadedFile
  split
  · exact .throw hF _
  refine .bind hF (.read hF _) fun repo => ?_
  split
  · exact .throw hF _
  dsimp only
  split
  · exact .throw hF _
  refine .bind hF (within_act hF _ fun s => .single (hE (.write path ⟨bytes, modTime⟩) hp) rfl) fun _ => ?_
  refine .bind hF (within_updateIndex fun s => hF.trans _ _ _ (Trace.single (hE (.ensureParents path) trivial) rfl)
    (Trace.single (hE (.insertFile path _) hp) rfl)) fun _ => ?_
  refine .bind hF (.when hF fun _ => within_supersedeSnapshot hE existed (fun h => hc (.inr h)) hs) fun _ => ?_
  split
  · refine .when hF fun hgen => ?_
    simp only [Bool.and_eq_true] at hgen
    exact within_generateChecksums hE hp (hc (.inl hgen.1)) _ _
  · exact .pure hF ()

theorem within_removeArtifactGPGSignature (hE : ∀ e, Event.OnFiles p e → E e) {path : String}
    (hp : ∀ ext ∈ artifactCompanionExts, p (path ++ ext)) : Prog.Within (Trace E) (removeArtifactGPGSignature path) := by
  unfold removeArtifactGPGSignature
  split
  · split
    · exact .throw (Trace.frame E) _
    · exact within_removeArtifactSignature hE _ _ hp
  · exact .pure (Trace.frame E) ()

end Files

/-! ### Reviews and the catalog -/

section Reviews
variable {R : Store → Store → Prop} {E : Event → Prop} {p : String → Prop}

theorem within_ensurePathMutable (hR : Prog.Frame R) (repo : Repository) (path : String) :
    Prog.Within R (ensurePathMutable repo path) := by
  refine .step hR fun s a s' h => ?_
  split at h <;> cases h
  exact hR.refl s

theorem within_ensurePackageMutable (hR : Prog.Frame R) (repository package : String) :
    Prog.Within R (ensurePackageMutable repository package) := by
  refine .step hR fun s a s' h => ?_
  split at h <;> cases h
  exact hR.refl s

theorem within_createOrUpdatePublicationReview (hE : ∀ e, Event.OnReviews e → E e) (request : PublicationReviewRequest) :
    Prog.Within (Trace E) (createOrUpdatePublicationReview request) := by
  have hF := Trace.frame E
  unfold createOrUpdatePublicationReview
  split
  · exact .throw hF _
  split
  · exact .throw hF _
  refine .bind hF (within_newUUID (hE .uuid trivial)) fun id => ?_
  refine .step hF fun s a s' h => ?_
  rcases hx : reviewTransaction s.settings id request _ s.reviews with e | ⟨result, reviews⟩
  · rw [hx] at h; cases h
  · rw [hx] at h
    cases h
    exact Trace.single (hE (.reviews reviews) trivial) rfl

theorem within_recordMavenPublication (hE : ∀ e, Event.OnReviews e → E e) (repository : String) (c : MavenCoordinate) :
    Prog.Within (Trace E) (recordMavenPublication repository c) := by
  refine .step (Trace.frame E) fun s a s' h => ?_
  split at h <;> cases h
  exact Trace.single (hE (.versions _) trivial) rfl

theorem within_recordPublishedPath (hE : ∀ e, Event.OnReviews e → E e) (repository path username : String) :
    Prog.Within (Trace E) (recordPublishedPath repository path username) := by
  have hF := Trace.frame E
  unfold recordPublishedPath
  split
  · exact .pure hF ()
  refine .bind hF (within_query hF _ _) fun verified => ?_
  split
  · exact within_recordMavenPublication hE _ _
  · exact .throw hF _

theorem within_processPublishedFiles (hE : ∀ e, Event.OnReviews e → E e) (repo : Repository) (username : String)
    (files : List ReviewFile) (now : Int) : Prog.Within (Trace E) (processPublishedFiles repo username files now) := by
  have hF := Trace.frame E
  unfold processPublishedFiles
  refine .bind hF (.forEach hF fun f _ => within_ensurePathMutable hF repo f.path) fun _ => ?_
  dsimp only
  split
  · split
    · exact .pure hF _
    refine .bind hF (within_query hF _ _) fun task => ?_
    split
    · exact .pure hF _
    · exact within_createOrUpdatePublicationReview hE _
  refine .bind hF (within_ensurePackageMutable hF _ _) fun _ => ?_
  split
  · refine .bind hF ?_ fun _ => .pure hF _
    split
    · exact .pure hF ()
    · exact within_recordPublishedPath hE _ _ _
  refine .bind hF (within_query hF _ _) fun packageExists => ?_
  refine .bind hF (within_createOrUpdatePublicationReview hE _) fun result => ?_
  split
  · exact .pure hF _
  · refine .bind hF ?_ fun _ => .pure hF _
    split
    · exact .pure hF ()
    · exact within_recordPublishedPath hE _ _ _

theorem within_decideReviewTask (hE : ∀ e, Event.OnReviews e → E e) (id : Nat) (decision : ReviewStatus) (now : Int) :
    Prog.Within (Trace E) (decideReviewTask id decision now) := by
  refine .step (Trace.frame E) fun s a s' h => ?_
  split at h
  · cases h
  split at h
  · cases h
  split at h
  · cases h
  cases h
  exact Trace.single (hE (.reviews _) trivial) rfl

theorem within_approvePublicationReview (hE : ∀ e, Event.OnReviews e → E e) (task : ReviewTask) :
    Prog.Within (Trace E) (approvePublicationReview task) := by
  have hF := Trace.frame E
  unfold approvePublicationReview
  split
  · exact .throw hF _
  refine .bind hF (within_query hF _ _) fun verified => ?_
  split
  · exact within_recordMavenPublication hE _ _
  · exact .throw hF _

theorem within_removeApprovedPublicationMetadata (hE : ∀ e, Event.OnReviews e → E e) (task : ReviewTask) :
    Prog.Within (Trace E) (removeApprovedPublicationMetadata task) := by
  have hF := Trace.frame E
  unfold removeApprovedPublicationMetadata
  split
  · exact .throw hF _
  · exact within_act hF _ fun s => Trace.single (hE (.versions _) trivial) rfl

theorem within_unblockPublicationReviewFiles (hE : ∀ e, Event.OnIndex p e → E e) (task : ReviewTask)
    (hp : ∀ f ∈ task.files, p (task.localPath f)) : Prog.Within (Trace E) (unblockPublicationReviewFiles task) := by
  have hF := Trace.frame E
  refine .forEach hF fun f hf => ?_
  have hpf := hp f (List.mem_of_mem_filter hf)
  refine .bind hF (within_query hF _ _) fun pending => ?_
  split
  · exact .pure hF ()
  · exact .bind hF (within_updateIndex fun s => Trace.single (hE (.unblock _) hpf) rfl) fun _ =>
      within_reindexPathIfPresent hE hpf

theorem within_deletePublicationReviewFiles (hE : ∀ e, Event.OnIndex p e → E e) (hE' : ∀ e, Event.OnFiles p e → E e)
    (task : ReviewTask) (hp : ∀ f ∈ task.files, p (task.localPath f)) :
    Prog.Within (Trace E) (deletePublicationReviewFiles task) := by
  have hF := Trace.frame E
  refine within_tryAll hF _ (fun m hm => ?_) none
  obtain ⟨f, hf, rfl⟩ := List.mem_map.1 hm
  have hpf := hp f (List.mem_of_mem_filter hf)
  exact .bind hF (within_deleteIndexedFile hE' hpf) fun _ =>
    within_updateIndex fun s => Trace.single (hE (.unblock _) hpf) rfl

theorem within_checkDecision (hR : Prog.Frame R) (id : Nat) (now : Int) : Prog.Within R (checkDecision id now) := by
  refine .bind hR (within_query hR _ _) fun task => ?_
  split
  · exact .throw hR _
  split
  · exact .throw hR _
  split
  · exact .throw hR _
  refine .bind hR (.read hR _) fun repo => ?_
  split
  · exact .throw hR _
  · exact .bind hR (.forEach hR fun f _ => within_ensurePathMutable hR _ _) fun _ => .pure hR _

theorem within_recordApproval (hE : ∀ e, Event.OnReviews e → E e) (task : ReviewTask) (now : Int) :
    Prog.Within (Trace E) (recordApproval task now) := by
  have hF := Trace.frame E
  refine .bind hF (within_approvePublicationReview hE _) fun _ => ?_
  refine .bind hF (.attempt (within_decideReviewTask hE _ _ _)) fun decided => ?_
  split
  · exact .pure hF ()
  refine .bind hF (.attempt (within_removeApprovedPublicationMetadata hE _)) fun removed => ?_
  split
  exacts [.throw hF _, .throw hF _]

theorem within_decidePublicationTask (hE : ∀ e, Event.OnIndex (fun _ => True) e → E e)
    (hE' : ∀ e, Event.OnFiles (fun _ => True) e → E e) (hE'' : ∀ e, Event.OnReviews e → E e) (id : Nat)
    (approve : Bool) (now : Int) : Prog.Within (Trace E) (decidePublicationTask id approve now) := by
  have hF := Trace.frame E
  refine .bind hF (within_checkDecision hF id now) fun task => ?_
  split
  · exact .bind hF (within_recordApproval hE'' task now) fun _ =>
      within_unblockPublicationReviewFiles hE _ fun _ _ => trivial
  · exact .bind hF (within_deletePublicationReviewFiles hE hE' _ fun _ _ => trivial) fun _ =>
      within_decideReviewTask hE'' _ _ _

end Reviews

/-! ### Uploads -/

section Uploads
variable {E : Event → Prop} {p : String → Prop}

theorem within_prepareMavenPublication (hE : ∀ e, Event.OnIndex p e → E e) (repo : Repository) {path : String}
    (hp : p path) : Prog.Within (Trace E) (prepareMavenPublication repo path) := by
  have hF := Trace.frame E
  unfold prepareMavenPublication
  split
  · exact .pure hF _
  split
  · exact .throw hF _
  dsimp only
  exact .bind hF (.when hF fun _ => within_updateIndex fun s => Trace.single (hE (.block _) hp) rfl) fun _ => .pure hF _

theorem within_abortMavenPublication (hE : ∀ e, Event.OnIndex p e → E e) {path : String} (hp : p path)
    (preparation : MavenPublicationPreparation) : Prog.Within (Trace E) (abortMavenPublication path preparation) := by
  have hF := Trace.frame E
  unfold abortMavenPublication
  split
  · exact .bind hF (within_updateIndex fun s => Trace.single (hE (.unblock _) hp) rfl) fun _ =>
      within_reindexPathIfPresent hE hp
  · exact .pure hF ()

theorem within_finishMavenPublication (hE : ∀ e, Event.OnIndex p e → E e) (hE' : ∀ e, Event.OnFiles p e → E e)
    (hE'' : ∀ e, Event.OnReviews e → E e) (repo : Repository) (upload : PreparedUpload) (hp : p upload.localFilePath)
    (preparation : MavenPublicationPreparation) (now : Int) :
    Prog.Within (Trace E) (finishMavenPublication repo upload preparation now) := by
  have hF := Trace.frame E
  have habort := within_abortMavenPublication hE hp preparation
  unfold finishMavenPublication
  split
  · exact .bind hF habort fun _ => .pure hF _
  refine .bind hF (.attempt (within_processPublishedFiles hE'' _ _ _ _)) fun result => ?_
  split
  · split
    · exact .bind hF habort fun _ => .pure hF _
    refine .bind hF (.attempt (within_deleteIndexedFile hE' hp)) fun cleanup => ?_
    refine .bind hF (within_updateIndex fun s => Trace.single (hE (.unblock _) hp) rfl) fun _ => ?_
    split
    · exact .throw hF _
    · exact .throw hF _
  · exact .bind hF (.when hF fun _ => within_updateIndex fun s => Trace.single (hE (.block _) hp) rfl) fun _ =>
      .pure hF _
  · exact .bind hF habort fun _ => .pure hF _

end Uploads

end Renop.Storage
