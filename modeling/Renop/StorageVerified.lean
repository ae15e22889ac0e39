import Renop.StorageClaims

/-!
# Only verified bytes are published

`publishClaimed` finds the row of its claim `validating`, so the staged files are still those that the claim verified,
and stores exactly these before the row becomes a success. Over any run from an empty queue, a release that reaches
success does so in the publication of a claim, and its stored bytes are those the claim verified.
-/

namespace Renop.Storage
open Crash Renop.Index

/-- Where a part of a release is stored. -/
def GPGRelease.localPath (r : GPGRelease) : Part → String
  | .artifact => r.localArtifactPath
  | .signature => r.localArtifactPath ++ ".asc"

/-- The staged part of the release is stored, byte for byte. -/
def Written (q : StagingPath → Option Bytes) (r : GPGRelease) (s : Store) (part : Part) : Prop :=
  ∀ path, (r.part part).stagingPath = some path →
    ∃ bytes, q path = some bytes ∧ s.bytesAt (r.localPath part) = some bytes

theorem Written.congr {q : StagingPath → Option Bytes} {r : GPGRelease} {s s' : Store} {part : Part}
    (h : Written q r s part) (hs : s'.bytesAt (r.localPath part) = s.bytesAt (r.localPath part)) : Written q r s' part := by
  intro path hpath
  obtain ⟨bytes, h1, h2⟩ := h path hpath
  exact ⟨bytes, h1, hs.trans h2⟩

section Publish
variable {crypto : Crypto} {claims : List Claim} {observed : List GPGRelease} {S : Nat → Prop}

/-- The row `r` is being published from the quarantine `q`, and the parts `parts` are stored. -/
structure Publishing (crypto : Crypto) (claims : List Claim) (observed : List GPGRelease) (S : Nat → Prop)
    (q : StagingPath → Option Bytes) (r : GPGRelease) (parts : Part → Prop) (s : Store) : Prop where
  queue : Queue crypto claims observed S s
  quarantine : s.quarantine = q
  row : r ∈ s.releases
  written : ∀ part, parts part → Written q r s part

variable {q : StagingPath → Option Bytes} {r : GPGRelease} {parts : Part → Prop}

theorem Publishing.trace {E : Event → Prop} {s s' : Store} (h : Publishing crypto claims observed S q r parts s)
    (ht : Trace E s s') (hquiet : ∀ e, E e → e.Quiet)
    (hspares : ∀ part, parts part → ∀ e, E e → e.Spares (r.localPath part)) :
    Publishing crypto claims observed S q r parts s' := by
  have hs := ht.sameQueue hquiet
  refine ⟨h.queue.sameQueue hs, hs.quarantine.trans h.quarantine, by rw [hs.releases]; exact h.row, fun part hpart => ?_⟩
  exact (h.written part hpart).congr (ht.bytesAt (hspares part hpart))

theorem Publishing.keep {α : Type} {m : StoreM α} {E : Event → Prop} (h : Prog.Within (Trace E) m)
    (hquiet : ∀ e, E e → e.Quiet) (hspares : ∀ part, parts part → ∀ e, E e → e.Spares (r.localPath part)) :
    Safe (Queue crypto claims observed S) (Publishing crypto claims observed S q r parts) m
      fun _ => Publishing crypto claims observed S q r parts :=
  .of_within h (fun _ _ hs ht => hs.trace ht hquiet hspares) fun _ h => h.queue

/-- The event touches files at the paths of `p` only. -/
def Event.Only (p : String → Prop) (e : Event) : Prop := e.OnFiles p ∨ e.OnReviews

theorem Event.Only.quiet {p : String → Prop} {e : Event} (h : e.Only p) : e.Quiet := h.elim (·.quiet) (·.quiet)

theorem Event.Only.spares {p : String → Prop} {path : String} {e : Event} (h : e.Only p) (hp : ¬ p path) :
    e.Spares path :=
  h.elim (·.spares hp) (·.spares)

theorem safe_publishStaged (part : Part) (p : String → Prop) (hp : ∀ part, parts part → ¬ p (r.localPath part))
    (hcommit : ∀ bytes size modTime existed checksums digests, Prog.Within (Trace (Event.Only p))
      (commitUploadedFile (r.localPath part) bytes size modTime existed checksums digests)) :
    Safe (Queue crypto claims observed S) (Publishing crypto claims observed S q r parts)
      (publishStaged (r.localPath part) (r.part part))
      fun _ => Publishing crypto claims observed S q r fun part' => part' = part ∨ parts part' := by
  unfold publishStaged
  split
  · rename_i hnone
    refine .pure _ fun s hs => ⟨hs.queue, hs.quarantine, hs.row, ?_⟩
    rintro part' (rfl | hpart)
    · exact fun path hpath => absurd (hnone.symm.trans hpath) nofun
    · exact hs.written part' hpart
  · rename_i path hpath
    refine .bind ((safe_readStaged (J := Publishing crypto claims observed S q r parts) path).weaken fun _ h => h.queue)
      fun bytes => ?_
    refine .of_state fun s₀ hs₀ => ?_
    refine Prog.Spec.conseq (Safe.and_post (@Publishing.keep crypto claims observed S q r parts _ _ _
      (hcommit bytes _ _ _ _ _) (fun _ h => h.quiet)
      fun part hpart _ h => h.spares (hp part hpart)) (written_commitUploadedFile _ _ _ _ _)) ?_ ?_
    · rintro s rfl
      exact hs₀.1
    · rintro - s ⟨hs, hbytes⟩
      refine ⟨hs.queue, hs.quarantine, hs.row, ?_⟩
      rintro part' (rfl | hpart)
      · intro path' hpath'
        cases hpath.symm.trans hpath'
        refine ⟨bytes, ?_, hbytes⟩
        rw [← hs₀.1.quarantine]
        exact hs₀.2
      · exact hs.written part' hpart

theorem within_commit_only {path : String} {p : String → Prop} (hp : p path)
    (hc : ∀ ext ∈ artifactCompanionExts, p (path ++ ext))
    (hs : isArtifactCompanionPath path = false → ∀ children, ∀ child ∈ supersededBuilds path children,
      p ((splitPathParentBase path).1 ++ "/" ++ child)) (bytes : Bytes) (size modTime : Int) (existed checksums : Bool)
    (digests : Option ContentDigests) :
    Prog.Within (Trace (Event.Only p)) (commitUploadedFile path bytes size modTime existed checksums digests) :=
  within_commitUploadedFile (fun _ h => .inl h) hp bytes size modTime existed (fun _ => hc) hs digests

theorem safe_stagedGPGCompanions {J : Store → Prop} (release : Nat) (targets : List (StagingName × String)) :
    Safe J J (stagedGPGCompanions release targets) fun companions s => J s ∧ ∀ t ∈ companions, t ∈ targets := by
  induction targets with
  | nil => exact .pure _ fun s hs => ⟨hs, fun t ht => ht⟩
  | cons target rest ih =>
    refine .bind (Safe.query (Q := fun _ => J) _ (fun _ h => h) fun _ h => h) fun staged => ?_
    refine .bind ih fun companions => .pure _ fun s hs => ⟨hs.1, fun t ht => ?_⟩
    split at ht
    · rcases List.mem_cons.1 ht with rfl | ht
      · exact List.mem_cons_self ..
      · exact List.mem_cons_of_mem _ (hs.2 t ht)
    · exact List.mem_cons_of_mem _ (hs.2 t ht)

theorem companionTarget_beside {target : StagingName × String} (h : target ∈ companionTargets r.localArtifactPath) :
    isArtifactCompanionPath target.2 = true ∧ ∀ part, target.2 ≠ r.localPath part := by
  obtain ⟨d, -, h⟩ := List.mem_flatMap.1 h
  simp only [List.mem_cons, List.not_mem_nil, or_false] at h
  rcases h with rfl | rfl
  · refine ⟨isArtifactCompanionPath_append _ (digest_ext_mem d), fun part => ?_⟩
    cases part
    · exact companion_ne_self _ (digest_ext_mem d)
    · intro he
      have := append_inj_right he
      revert this
      cases d <;> decide
  · refine ⟨isArtifactCompanionPath_append _ (digest_ext_mem d), fun part => ?_⟩
    cases part
    · show r.localArtifactPath ++ ".asc" ++ d.ext ≠ r.localArtifactPath
      rw [String.append_assoc]
      exact append_ne_self _ (by cases d <;> decide)
    · exact companion_ne_self _ (digest_ext_mem d)

theorem safe_publishStagedGPGCompanions :
    Safe (Queue crypto claims observed S) (Publishing crypto claims observed S q r parts)
      (publishStagedGPGCompanions r.id r.localArtifactPath) fun _ => Publishing crypto claims observed S q r parts := by
  let R (companions : List (StagingName × String)) (s : Store) : Prop :=
    Publishing crypto claims observed S q r parts s ∧ ∀ t ∈ companions, t ∈ companionTargets r.localArtifactPath
  refine .bind ((safe_stagedGPGCompanions (J := Publishing crypto claims observed S q r parts) r.id
    (companionTargets r.localArtifactPath)).weaken fun _ h => h.queue) fun companions => ?_
  refine Prog.Spec.conseq (.forEach (R := R) (fun target rest => ?_) companions) (fun _ h => h) fun _ _ h => h.1
  refine .of_state fun s₀ hs₀ => ?_
  have htarget := companionTarget_beside (hs₀.2 target (List.mem_cons_self ..))
  have hbody : Prog.Within (Trace (Event.Only (· = target.2))) (do
      let existed ← Prog.read fun s => s.pathExistsForUpload target.2
      let size ← query (.statStaged target.1) fun s =>
        ((s.quarantine ⟨r.id, target.1⟩).map fun b => b.toList.length).getD 0
      publishPreparedReleaseFile target.2 ⟨r.id, target.1⟩ size 0 existed false none) := by
    have hF := Trace.frame (Event.Only (· = target.2))
    refine .bind hF (.read hF _) fun existed => .bind hF (within_query hF _ _) fun size => ?_
    refine .bind hF (.step hF fun s a s' h => ?_) fun bytes => ?_
    · split at h <;> cases h
      exact hF.refl s
    · refine within_commitUploadedFile (p := (· = target.2)) (fun _ h => .inl h) rfl bytes _ _ _ (fun h => ?_)
        (fun h => ?_) _
      · rw [htarget.1] at h; simp at h
      · rw [htarget.1] at h; cases h
  refine (@Publishing.keep _ _ _ _ _ _ parts _ _ _ hbody (fun _ h => h.quiet) fun part _ _ h =>
    h.spares fun he => htarget.2 part he.symm).conseq ?_ fun _ s hs =>
      ⟨hs, fun t ht => hs₀.2 t (List.mem_cons_of_mem _ ht)⟩
  rintro s rfl
  exact hs₀.1

theorem within_saveVerification (record : Option GPGSignature) (p : String → Prop) :
    Prog.Within (Trace (Event.Only p)) (saveVerification record) := by
  cases record with
  | none => exact .pure (Trace.frame _) ()
  | some record =>
    exact within_act (Trace.frame _) _ fun s => .single (e := .signature record.artifactKey (some record)) (.inl trivial) rfl

theorem within_publicationReviewFilesForRelease {R : Store → Store → Prop} (hR : Prog.Frame R) (r : GPGRelease)
    (now : Int) : Prog.Within R (publicationReviewFilesForRelease r now) := by
  refine .bind hR (within_query hR _ _) fun stored => ?_
  dsimp only
  split
  · exact .throw hR _
  · exact .pure hR _

/-- The publication of a row stores its parts, and touches neither the queue nor the quarantine. -/
theorem safe_publishReleaseFiles (repo : Repository) (record : Option GPGSignature) (now : Int) :
    Safe (Queue crypto claims observed S) (Publishing crypto claims observed S q r fun _ => False)
      (publishReleaseFiles repo r record now) fun _ => Publishing crypto claims observed S q r fun _ => True := by
  have hF := Trace.frame (Event.Only fun _ => True)
  have hsig : ∀ p : String → Prop, (∀ ext ∈ artifactCompanionExts, p (r.localArtifactPath ++ ext)) →
      Prog.Within (Trace (Event.Only p)) (removeArtifactSignature r.repository r.artifactPath r.localArtifactPath) :=
    fun p hp => within_removeArtifactSignature (fun _ h => .inl h) _ _ hp
  unfold publishReleaseFiles
  dsimp only
  refine .bind (Publishing.keep (.when hF fun _ => .bind hF (within_removeArtifactChecksums (fun _ h => .inl h)
    fun _ _ => trivial) fun _ => hsig _ fun _ _ => trivial) (fun _ h => h.quiet) fun _ h => h.elim) fun _ => ?_
  refine .bind (safe_publishStaged .artifact (fun _ => True) (fun _ h => h.elim) fun _ _ _ _ _ _ =>
    within_commit_only trivial (fun _ _ => trivial) (fun _ _ _ _ => trivial) _ _ _ _ _ _) fun _ => ?_
  refine .bind (Publishing.keep (.when (Trace.frame _) fun _ => hsig (· ≠ r.localArtifactPath) fun ext hext =>
    companion_ne_self _ hext) (fun _ h => h.quiet) ?_) fun _ => ?_
  · rintro part (rfl | h) e he
    · exact he.spares (· rfl)
    · exact h.elim
  refine .bind (safe_publishStaged .signature (· ≠ r.localArtifactPath) ?_ ?_) fun _ => ?_
  · rintro part (rfl | h) hp
    · exact hp rfl
    · exact h
  · intro bytes size modTime existed checksums digests
    have hcompanion : isArtifactCompanionPath (r.localPath .signature) = true :=
      isArtifactCompanionPath_append _ (by decide)
    refine @within_commit_only (r.localPath .signature) ((· ≠ r.localArtifactPath))
      (@append_ne_self r.localArtifactPath ".asc" (by decide)) (fun ext hext => ?_) (fun h => ?_) _ _ _ _ _ _
    · show r.localArtifactPath ++ ".asc" ++ ext ≠ r.localArtifactPath
      rw [String.append_assoc]
      refine append_ne_self _ fun he => ?_
      have hlen := congrArg (fun s : String => s.toList.length) he
      simp at hlen
    · rw [hcompanion] at h
      cases h
  refine .bind safe_publishStagedGPGCompanions fun _ => ?_
  refine .bind (Publishing.keep (within_saveVerification record fun _ => False) (fun _ h => h.quiet)
    fun _ _ _ h => h.spares id) fun _ => ?_
  have hreview : Prog.Within (Trace (Event.Only fun _ => False)) (Prog.when (repo.format = .maven) do
      let files ← publicationReviewFilesForRelease r now
      let _ ← processPublishedFiles repo r.uploader files now) := by
    refine .when (Trace.frame _) fun _ => .bind (Trace.frame _)
      (within_publicationReviewFilesForRelease (Trace.frame _) r now)
      fun files => .bind (Trace.frame _) (within_processPublishedFiles (fun _ h => .inr h) repo _ _ _) fun _ =>
        .pure (Trace.frame _) ()
  refine (Publishing.keep hreview (fun _ h => h.quiet) fun _ _ _ h => h.spares id).conseq (fun _ h => h) fun _ s hs =>
    ⟨hs.queue, hs.quarantine, hs.row, fun part _ => hs.written part ?_⟩
  cases part
  · exact .inr (.inl rfl)
  · exact .inl rfl

/-! ### The publication of a claim -/

theorem Queue.mono {S' : Nat → Prop} {s : Store} (h : Queue crypto claims observed S s) (hS : ∀ id, S id → S' id) :
    Queue crypto claims observed S' s :=
  ⟨⟨h.ids, h.fresh, h.own, h.keys, h.active, h.cleanup, fun r hr hs =>
    ⟨hS _ (h.success r hr hs).1, (h.success r hr hs).2⟩⟩, h.claimIds, h.live, h.ready, h.observed⟩

theorem Queue.validated {s : Store} (h : Queue crypto claims observed S s) {c : Claim} (hc : c ∈ claims)
    {release : GPGRelease} {verification : Option Verification} (hstage : c.stage = .ready release verification)
    {current : GPGRelease} (hcur : current ∈ s.releases) (hid : current.id = release.id)
    (hst : current.status = .validating) :
    current.id = c.release.id ∧ Checked crypto s.quarantine current verification := by
  have hrelease := h.ready c hc release verification hstage
  have hcid : current.id = c.release.id := hid.trans hrelease.id
  obtain ⟨row, hrow, hrid, hlive⟩ := h.live c hc
  obtain rfl := h.eq_of_id hrow hcur (hrid.trans hcid.symm)
  refine ⟨hcid, ?_⟩
  rcases hlive with ht | ⟨-, hsame, hsound⟩
  · rw [hst] at ht; exact ht.elim
  rw [hstage] at hsound
  have hchecked : Checked crypto s.quarantine c.release verification := hsound
  unfold Checked at hchecked ⊢
  rw [hsame.signature, hsame.artifact, hsame.requireSignature, hsame.uploader]
  exact hchecked

theorem started_part (current release : GPGRelease) (part : Part) :
    ((current.started release).part part).stagingPath = (current.part part).stagingPath := by
  cases part <;> rfl

theorem started_sameJob (current release : GPGRelease) : SameJob current (current.started release) :=
  ⟨rfl, rfl, rfl, rfl, rfl, rfl, rfl⟩

/-- `r` is a success and its parts are stored. -/
structure Published (crypto : Crypto) (claims : List Claim) (observed : List GPGRelease) (S : Nat → Prop)
    (q : StagingPath → Option Bytes) (r : GPGRelease) (s : Store) : Prop where
  queue : Queue crypto claims observed (fun id => S id ∨ id = r.id) s
  written : ∀ part, Written q r s part

theorem Publishing.publish {s : Store} (h : Publishing crypto claims observed S q r (fun _ => True) s)
    (hv : r.status = .validating) :
    Published crypto claims observed S q r (s.saveRelease r.published) ∧
      Terminated (s.saveRelease r.published) r.published := by
  have hmono := @Queue.mono _ _ _ _ (fun id => S id ∨ id = r.id) _ h.queue fun _ => .inl
  refine ⟨⟨hmono.saveUpdate h.row ⟨rfl, .inr rfl, fun hn => absurd trivial hn, fun _ => trivial, fun _ =>
    ⟨.inr rfl, rfl⟩, fun ht => ?_, fun _ => .inl trivial⟩ (h.queue.own r h.row), fun part => h.written part trivial⟩,
    trivial, ⟨_, mem_saveRelease_self h.row rfl, rfl, rfl⟩, h.queue.own r h.row⟩
  rw [hv] at ht
  exact ht.elim

theorem Event.OnIndex.files {p : String → Prop} {e : Event} (h : e.OnIndex p) (s : Store) :
    (e.apply s).files = s.files := by
  cases e <;> first | rfl | exact h.elim

theorem keeps_files_cleanupTerminalGPGRelease {r : GPGRelease} (hst : r.status ≠ .failed) :
    Prog.Keeps Store.files (cleanupTerminalGPGRelease r) := by
  have hF : Prog.Frame fun s s' : Store => s'.files = s.files := Prog.Frame.keeps Store.files
  unfold cleanupTerminalGPGRelease
  split
  · exact .pure hF ()
  refine .bind hF (.bind hF (.when hF fun h => absurd h.1 hst) fun _ => .bind hF (.bind hF ?_ fun _ =>
    within_act hF _ fun _ => rfl) fun _ => within_act hF _ fun _ => rfl) fun _ => ?_
  · unfold validateReleaseStagingPaths
    split
    exacts [.pure hF (), .throw hF _]
  refine .bind hF ?_ fun _ => .when hF fun h => absurd h.1 hst
  exact (within_unblockReleasePaths (p := fun _ => True) (fun _ h => h) r fun _ _ => trivial).mono fun s s' ht =>
    ht.keeps fun s e he => he.files s

theorem Published.congr {s s' : Store} (h : Published crypto claims observed S q r s)
    (hqueue : Queue crypto claims observed (fun id => S id ∨ id = r.id) s') (hfiles : s'.files = s.files) :
    Published crypto claims observed S q r s' := by
  refine ⟨hqueue, fun part => (h.written part).congr ?_⟩
  unfold Store.bytesAt
  rw [hfiles]

/-- What a publication leaves behind at an error or a crash: nothing but the queue, or the published release. -/
def Publication (crypto : Crypto) (claims : List Claim) (observed : List GPGRelease) (S : Nat → Prop)
    (verification : Option Verification) (id : Nat) (s₀ s : Store) : Prop :=
  Queue crypto claims observed S s ∨ ∃ r ∈ s₀.releases, r.id = id ∧ r.status = .validating ∧
    Checked crypto s₀.quarantine r verification ∧ Published crypto claims observed S s₀.quarantine r s

theorem safe_publishClaimed {c : Claim} (hc : c ∈ claims) {release : GPGRelease} {verification : Option Verification}
    (hstage : c.stage = .ready release verification) {s₀ : Store} (h₀ : Queue crypto claims observed S s₀) (now : Int) :
    Safe (Publication crypto claims observed S verification c.release.id s₀) (fun s => s = s₀)
      (publishClaimed release (verification.map Verification.record) now)
      fun _ => Publication crypto claims observed S verification c.release.id s₀ := by
  have hinit : ∀ s, s = s₀ → Publication crypto claims observed S verification c.release.id s₀ s := by
    rintro s rfl
    exact .inl h₀
  refine .bind ((safe_getActiveGPGRelease_row (J := fun s => s = s₀) release.activeKey).weaken hinit) fun active => ?_
  cases active with
  | none => exact Safe.throw _ fun s hs => hinit s hs.1
  | some current =>
    dsimp only
    split
    · split
      · have hclean : Safe (Queue crypto claims observed S)
            (fun s => s = s₀ ∧ ∀ r, some current = some r → r ∈ s.releases ∧ r.activeKey = release.activeKey)
            (cleanupTerminalGPGRelease current) fun _ => Queue crypto claims observed S := by
          refine (safe_cleanupTerminalGPGRelease current).conseq ?_ fun _ _ h => h
          rintro s ⟨rfl, hrow⟩
          exact ⟨h₀, h₀.terminated (hrow current rfl).1⟩
        refine .bind (Prog.Spec.attempt hclean fun _ h => .inl h) fun r => ?_
        cases r with
        | ok _ => exact Safe.throw _ fun s hs => .inl hs
        | error e => exact Safe.throw _ fun s hs => .inl hs.1
      · exact Safe.throw _ fun s hs => hinit s hs.1
    · rename_i hcond
      have hid : current.id = release.id := by_contra fun h => hcond (.inl h)
      have hst : current.status = .validating := by_contra fun h => hcond (.inr h)
      let P (s : Store) : Prop := s = s₀ ∧ current ∈ s₀.releases
      refine .bind (.read (Q := fun _ => P) fun s hs => ⟨hs.1, hs.1 ▸ (hs.2 current rfl).1⟩) fun repo => ?_
      cases repo with
      | none => exact Safe.throw _ fun s hs => hinit s hs.1
      | some repo =>
        dsimp only
        split
        · exact Safe.throw _ fun s hs => hinit s hs.1
        split
        · exact Safe.throw _ fun s hs => hinit s hs.1
        refine .of_state fun s hP => ?_
        obtain ⟨rfl, hcur⟩ := hP
        obtain ⟨hcid, hchecked⟩ := h₀.validated hc hstage hcur hid hst
        let r := current.started release
        -- a success row of the saved table is the published one
        have hpublished : ∀ s', Published crypto claims observed S s.quarantine r s' →
            Publication crypto claims observed S verification c.release.id s s' := by
          refine fun s' h => .inr ⟨current, hcur, hcid, hst, hchecked, h.queue, fun part path hpath => ?_⟩
          have := h.written part path (by rw [started_part]; exact hpath)
          cases part <;> exact this
        refine .bind (Q := fun _ => Publishing crypto claims observed S s.quarantine r fun _ => False)
          (Safe.act _ hinit ?_) fun _ => ?_
        · rintro _ rfl
          refine ⟨h₀.saveUpdate hcur ⟨rfl, .inl rfl, h₀.active current hcur, fun hcl => ?_, fun hs => ?_,
            fun ht => ?_, fun _ => .inr
            ⟨hst, started_sameJob current release⟩⟩ fun part path hp => ?_, rfl, mem_saveRelease_self hcur rfl,
            fun _ h => h.elim⟩
          · exact h₀.cleanup current hcur hcl
          · rw [show (current.started release).status = .validating from hst] at hs; cases hs
          · rw [hst] at ht; exact ht.elim
          · exact h₀.own current hcur part path (by rw [← started_part current release]; exact hp)
        refine .bind ((safe_publishReleaseFiles repo _ now).weaken fun _ h => .inl h) fun _ => ?_
        let P' (s' : Store) : Prop :=
          Published crypto claims observed S s.quarantine r s' ∧ Terminated s' r.published
        refine .bind (Q := fun _ => P') (Safe.act _ (fun _ h => .inl h.queue) fun s' hs' => hs'.publish hst) fun _ => ?_
        have hindex : ∀ {m : StoreM Unit}, Prog.Within (Trace (Event.OnIndex fun _ => True)) m →
            Safe (Publication crypto claims observed S verification c.release.id s) P' m fun _ => P' := by
          intro m hm
          refine .of_within hm (fun s' s'' hs' ht => ?_) fun s' hs' => hpublished s' hs'.1
          have hq := ht.sameQueue fun _ h => h.quiet
          exact ⟨hs'.1.congr (hs'.1.queue.sameQueue hq) (ht.keeps fun s e he => he.files s), hs'.2.mono hq⟩
        refine .bind (hindex (within_unblockReleasePaths (fun _ h => h) _ fun _ _ => trivial)) fun _ => ?_
        refine .bind (hindex (.forEach (Trace.frame _) fun _ _ => within_reindexPathIfPresent (fun _ h => h) trivial))
          fun _ => ?_
        refine .of_state fun s₁ hs₁ => ?_
        refine Prog.Spec.conseq (Prog.Spec.weaken (Prog.Spec.and (safe_cleanupTerminalGPGRelease r.published)
          (.of_within (P := fun s' => s'.files = s₁.files) (I := fun s' => s'.files = s₁.files)
            (keeps_files_cleanupTerminalGPGRelease (r := r.published) nofun) (fun _ _ h h' => h'.trans h) fun _ h => h))
          fun s' hs' => hpublished s' (hs₁.1.congr hs'.1 hs'.2)) ?_ fun _ s' hs' =>
            hpublished s' (hs₁.1.congr hs'.1 hs'.2)
        rintro _ rfl
        exact ⟨⟨hs₁.1.queue, fun _ => hs₁.2⟩, rfl⟩

end Publish

/-! ### Runs -/

theorem reboot_files (s : Store) : s.reboot.files = s.files := by
  have hF : Prog.Frame fun s s' : Store => s'.files = s.files := Prog.Frame.keeps Store.files
  have hblock : ∀ paths : List String,
      Prog.Keeps Store.files (Prog.forEach paths fun path => updateIndex fun idx => idx.blockFile path) :=
    fun paths => .forEach hF fun path _ => within_updateIndex fun _ => rfl
  have hstartup : Prog.Keeps Store.files startup := by
    refine .bind hF (.bind hF (within_act hF _ fun _ => rfl) fun _ => .bind hF (within_query hF _ _) fun releases => ?_)
      fun _ => ?_
    · refine .bind hF (.forEach hF fun r _ => .bind hF ?_ fun _ => .when hF fun _ => hblock _) fun _ =>
        within_act hF _ fun _ => rfl
      unfold validateReleaseStagingPaths
      split
      exacts [.pure hF (), .throw hF _]
    refine .bind hF (.bind hF (within_query hF _ _) fun paths => hblock paths) fun _ => ?_
    refine .bind hF (.read hF _) fun paths => .forEach hF fun path _ => ?_
    exact (within_reindexPathIfPresent (p := fun _ => True) (fun _ h => h) trivial).mono fun s s' ht =>
      ht.keeps fun s e he => he.files s
  exact hstartup { s with index := .newFileIndex } []

namespace World
variable {crypto : Crypto} {S : Nat → Prop} {w : World}

/-- The invariant of a run; `S` holds the releases that may be a success. -/
def Inv (crypto : Crypto) (S : Nat → Prop) (w : World) : Prop := Queue crypto w.claims w.observed S w.store

theorem perform_spec {α : Type} {m : StoreM α} {I P : Store → Prop} {Q : α → Store → Prop} {fs : List Fault}
    {k : Except StorageError α → Store → World} {G : World → Prop} (h : Safe I P m Q) (hs : P w.store)
    (hok : ∀ a s, Q a s → G (k (.ok a) s)) (herr : ∀ e s, I s → G (k (.error e) s)) (hcrash : ∀ s, I s → G (reboot s)) :
    G (w.perform m fs k) := by
  have := h w.store fs ⟨hs, trivial⟩
  unfold perform
  revert this
  rcases m w.store fs with ⟨e | a, s', fs'⟩ | s'
  exacts [fun h => herr e s' h.1, fun h => hok a s' h.1, fun h => hcrash s' h.1]

theorem Inv.reboot {s : Store} (h : Rows S s) : Inv crypto S (reboot s) := h.reboot.queue

theorem Inv.keep {α : Type} {m : StoreM α} {fs : List Fault} (h : Inv crypto S w)
    (hm : Safe (Queue crypto w.claims w.observed S) (Queue crypto w.claims w.observed S) m
      fun _ => Queue crypto w.claims w.observed S) :
    Inv crypto S (w.perform m fs fun _ s => { w with store := s }) :=
  perform_spec hm h (fun _ _ hs => hs) (fun _ _ hs => hs) fun _ hs => .reboot hs.toRows

theorem Inv.advance (h : Inv crypto S w) {i : Nat} {c : Claim} (hc : w.claims[i]? = some c) (fs : List Fault) :
    Inv crypto S (w.advance crypto i c fs) := by
  have herr : ∀ (e : StorageError) (s : Store), Queue crypto w.claims w.observed S s →
      Inv crypto S { w with store := s, claims := w.claims.set i { c with stage := .failed e } } := fun e s hs =>
    hs.setClaim hc (.failed e) (fun _ => trivial) fun _ _ h => by cases h
  have hcrash : ∀ s, Queue crypto w.claims w.observed S s → Inv crypto S (World.reboot s) := fun _ hs => .reboot hs.toRows
  unfold World.advance
  split
  · exact perform_spec (safe_validateClaim c.release) h
      (fun a s hs => hs.1.setClaim hc (.signatureRead a.1 a.2) (fun _ => hs.2) fun _ _ h => by cases h) herr hcrash
  · rename_i repo signature hstage
    refine perform_spec (safe_verifyClaim repo c.release signature) h
      (fun v s hs => hs.1.setClaim hc (.verified v) (fun hsound => hs.2 ?_) fun _ _ h => by cases h) herr hcrash
    rw [hstage] at hsound
    exact hsound
  · rename_i verification hstage
    refine perform_spec (safe_ensureReleaseDigests c.release) h
      (fun r s hs => hs.1.setClaim hc (.ready r verification) (fun hsound => ?_) ?_) herr hcrash
    · rw [hstage] at hsound
      exact hsound
    · intro release verification' he
      cases he
      exact hs.2
  · exact h

/-- What the step of a publication can be. -/
structure Publishes (crypto : Crypto) (w : World) (op : Op) (w' : World) (r : GPGRelease)
    (verification : Option Verification) :
    Prop where
  row : r ∈ w.store.releases
  validating : r.status = .validating
  claim : ∃ i now c release, op = .publish i now ∧ w.claims[i]? = some c ∧ c.stage = .ready release verification ∧
    c.release.id = r.id
  checked : Checked crypto w.store.quarantine r verification
  written : ∀ part, Written w.store.quarantine r w'.store part

theorem Inv.publish (h : Inv crypto S w) {i : Nat} {c : Claim} (hc : w.claims[i]? = some c) {release : GPGRelease}
    {verification : Option Verification} (hstage : c.stage = .ready release verification) (now : Int) (fs : List Fault) :
    let w' := w.perform (publishClaimed release (verification.map Verification.record) now) fs (w.afterPublish i c)
    Inv crypto S w' ∨ ∃ r, Inv crypto (fun id => S id ∨ id = r.id) w' ∧
      Publishes crypto w (.publish i now) w' r verification := by
  have hmem : c ∈ w.claims := List.mem_of_getElem? hc
  -- whatever becomes of the claim, the queue stays one
  have hafter : ∀ {S'} (res : Except StorageError Unit) (s : Store), Queue crypto w.claims w.observed S' s →
      Inv crypto S' (w.afterPublish i c res s) ∧ (w.afterPublish i c res s).store = s := by
    intro S' res s hs
    unfold afterPublish
    split
    · exact ⟨hs.eraseClaim i, rfl⟩
    split
    · exact ⟨hs.eraseClaim i, rfl⟩
    · exact ⟨hs.setClaim hc _ (fun _ => trivial) (fun _ _ h => by cases h), rfl⟩
  have hexit : ∀ (res : Except StorageError Unit) (s : Store),
      Publication crypto w.claims w.observed S verification c.release.id w.store s →
      Inv crypto S (w.afterPublish i c res s) ∨ ∃ r, Inv crypto (fun id => S id ∨ id = r.id)
        (w.afterPublish i c res s) ∧ Publishes crypto w (.publish i now) (w.afterPublish i c res s) r verification := by
    intro res s hs
    rcases hs with hs | ⟨r, hr, hid, hv, hchecked, hpub⟩
    · exact .inl (hafter res s hs).1
    · obtain ⟨h1, h2⟩ := hafter res s hpub.queue
      refine .inr ⟨r, h1, hr, hv, ⟨i, now, c, release, rfl, hc, hstage, hid.symm⟩, hchecked, fun part => ?_⟩
      rw [h2]
      exact hpub.written part
  refine perform_spec (G := fun w' => Inv crypto S w' ∨ ∃ r, Inv crypto (fun id => S id ∨ id = r.id) w' ∧
    Publishes crypto w (.publish i now) w' r verification) (k := w.afterPublish i c)
    (safe_publishClaimed hmem hstage h now) rfl (fun a s hs => hexit (.ok a) s hs)
    (fun e s hs => hexit (.error e) s hs) fun s hs => ?_
  rcases hs with hs | ⟨r, hr, hid, hv, hchecked, hpub⟩
  · exact .inl (.reboot hs.toRows)
  · refine .inr ⟨r, .reboot hpub.queue.toRows, hr, hv, ⟨i, now, c, release, rfl, hc, hstage, hid.symm⟩, hchecked,
      fun part => (hpub.written part).congr ?_⟩
    show s.reboot.bytesAt _ = s.bytesAt _
    unfold Store.bytesAt
    rw [reboot_files]

/-- A step keeps the invariant, or it is the publication of a claim and adds its release to the successes. -/
theorem Inv.step (h : Inv crypto S w) (op : Op) (fs : List Fault) :
    Inv crypto S (w.step crypto op fs) ∨ ∃ r verification, Inv crypto (fun id => S id ∨ id = r.id)
      (w.step crypto op fs) ∧ Publishes crypto w op (w.step crypto op fs) r verification := by
  cases op with
  | configure settings => exact .inl (h.sameQueue ⟨rfl, rfl, Nat.le_refl _⟩)
  | upload repo upload now => exact .inl (h.keep (safe_upload repo upload now))
  | claim now =>
    refine .inl (perform_spec (safe_claimNextGPGRelease now) h (fun r s hs => ?_) (fun _ _ hs => hs)
      fun _ hs => .reboot hs.toRows)
    cases r <;> exact hs
  | advance i =>
    left
    unfold World.step
    dsimp only
    split
    · exact h.advance ‹_› fs
    · exact h
  | publish i now =>
    unfold World.step
    dsimp only
    rcases hc : w.claims[i]? with - | c
    · exact .inl h
    · dsimp only
      rcases hstage : c.stage with - | ⟨repo, signature⟩ | v | ⟨release, v⟩ | e
      · exact .inl h
      · exact .inl h
      · exact .inl h
      · exact (h.publish hc hstage now fs).imp id fun ⟨r, hr⟩ => ⟨r, v, hr⟩
      · exact .inl h
  | fail i reason =>
    left
    unfold World.step
    dsimp only
    split
    · split
      · exact perform_spec (safe_failClaimedGPGRelease _ reason) h (fun _ _ hs => hs.eraseClaim i)
          (fun _ _ hs => hs.eraseClaim i) fun _ hs => .reboot hs.toRows
      · exact h
    · exact h
  | inspect =>
    refine .inl ⟨h.toRows, h.claimIds, h.live, h.ready, fun o ho hcl => ?_⟩
    rcases List.mem_append.1 ho with ho | ho
    · exact h.observed o ho hcl
    · exact h.terminated (mem_pendingReleases ho) hcl
  | cleanup i =>
    left
    unfold World.step
    dsimp only
    split
    · rename_i o ho
      refine h.keep ((safe_cleanupTerminalGPGRelease o).conseq (fun s hs => ⟨hs, hs.observed o (List.mem_of_getElem? ho)⟩)
        fun _ _ h => h)
    · exact h
  | expire i now =>
    left
    unfold World.step
    dsimp only
    split
    · exact h.keep (safe_expireGPGReleaseIfIncomplete _ now)
    · exact h
  | discard localPrefix reason => exact .inl (h.keep (safe_discardPendingGPGUploads localPrefix reason))
  | decide task approve now => exact .inl (h.keep (Queue.quiet (within_decidePublicationTask (fun _ h => h.quiet)
      (fun _ h => h.quiet) (fun _ h => h.quiet) task approve now)))
  | restart => exact .inl (.reboot h.toRows)

theorem Inv.init (settings : Settings) (files : PathMap StoredFile) (versions : List MavenVersion) :
    Inv crypto S (World.init settings files versions) := by
  have hnone : ∀ {p : GPGRelease → Prop}, ∀ r ∈ (World.init settings files versions).store.releases, p r :=
    fun r hr => absurd hr List.not_mem_nil
  exact Rows.queue ⟨List.nodup_nil, hnone, hnone, hnone, hnone, hnone, hnone⟩

theorem Inv.run (h : Inv crypto S w) (ops : List (Op × List Fault)) : ∃ S', Inv crypto S' (w.run crypto ops) := by
  induction ops generalizing w S with
  | nil => exact ⟨S, h⟩
  | cons op ops ih =>
    rcases h.step op.1 op.2 with h | ⟨r, v, h, -⟩
    · exact ih h
    · exact ih h

theorem Inv.exact (h : Inv crypto S w) :
    Inv crypto (fun id => ∃ r ∈ w.store.releases, r.id = id ∧ r.status = .success) w :=
  ⟨⟨h.ids, h.fresh, h.own, h.keys, h.active, h.cleanup, fun r hr hs =>
    ⟨⟨r, hr, rfl, hs⟩, (h.success r hr hs).2⟩⟩, h.claimIds, h.live, h.ready, h.observed⟩

/-- What the publication of `r`, from `s` to `s'`, stores: the staged bytes, as they were verified, and no unsigned
artifact where a signature is required. -/
structure VerifiedBytes (crypto : Crypto) (s s' : Store) (r : GPGRelease) (verification : Option Verification) : Prop where
  artifact : ∀ path, r.artifact.stagingPath = some path → ∃ bytes, s.quarantine path = some bytes ∧
    s'.bytesAt r.localArtifactPath = some bytes ∧ ∀ v, verification = some v → v.artifact = bytes
  signature : ∀ path, r.signature.stagingPath = some path → ∃ v, verification = some v ∧
    crypto.verifyDetached r.uploader v.artifact v.signature = some v.record.fingerprint ∧
      s.quarantine path = some v.signature ∧
    s'.bytesAt (r.localArtifactPath ++ ".asc") = some v.signature
  unsigned : r.signature.stagingPath = none → r.requireSignature = false

theorem Publishes.verified {op : Op} {w' : World} {r : GPGRelease} {verification : Option Verification}
    (h : Publishes crypto w op w' r verification) : VerifiedBytes crypto w.store w'.store r verification := by
  have hchecked := h.checked
  unfold Checked at hchecked
  rcases hsig : r.signature.stagingPath with - | sigPath
  · rw [hsig] at hchecked
    obtain ⟨hv, hreq⟩ := hchecked
    refine ⟨fun path hpath => ?_, fun path hpath => absurd (hsig.symm.trans hpath) nofun, fun _ => hreq⟩
    obtain ⟨bytes, h1, h2⟩ := h.written .artifact path hpath
    exact ⟨bytes, h1, h2, fun v hv' => absurd (hv.symm.trans hv') nofun⟩
  · rw [hsig] at hchecked
    obtain ⟨v, hv, hstaged, hdetached, hart⟩ := hchecked
    refine ⟨fun path hpath => ?_, fun path hpath => ?_, fun hnone => absurd (hsig.symm.trans hnone) nofun⟩
    · obtain ⟨bytes, h1, h2⟩ := h.written .artifact path hpath
      refine ⟨bytes, h1, h2, fun v' hv' => ?_⟩
      cases hv.symm.trans hv'
      exact Option.some.inj ((hart path hpath).symm.trans h1)
    · obtain ⟨bytes, h1, h2⟩ := h.written .signature path hpath
      obtain rfl := Option.some.inj (hsig.symm.trans hpath)
      obtain rfl := Option.some.inj (hstaged.symm.trans h1)
      exact ⟨v, hv, hdetached, hstaged, h2⟩

/-- After any operations with any faults, from a store with nothing pending: active keys are unique, no two claims have
one release, and a release becomes a success only in the publication of the claim that verified what it stores. -/
theorem run_publishes_verified (crypto : Crypto) (settings : Settings) (files : PathMap StoredFile)
    (versions : List MavenVersion) (ops : List (Op × List Fault)) :
    let w := (init settings files versions).run crypto ops
    (∀ r ∈ w.store.releases, ∀ r' ∈ w.store.releases, ∀ key, r.activeKey = some key → r'.activeKey = some key →
      r = r') ∧ (w.claims.map fun c => c.release.id).Nodup ∧
      ∀ op fs, ∀ r' ∈ (w.step crypto op fs).store.releases, r'.status = .success →
        (∃ r ∈ w.store.releases, r.id = r'.id ∧ r.status = .success) ∨
        ∃ i now c release verification, op = .publish i now ∧ w.claims[i]? = some c ∧
          c.stage = .ready release verification ∧ ∃ r ∈ w.store.releases, r.id = r'.id ∧ c.release.id = r.id ∧
            r.status = .validating ∧ VerifiedBytes crypto w.store (w.step crypto op fs).store r verification := by
  intro w
  obtain ⟨S, hS⟩ := (@Inv.init crypto (fun _ => False) settings files versions).run ops
  have h : Inv crypto _ w := hS.exact
  refine ⟨fun r hr r' hr' key hk hk' => h.eq_of_id hr hr' (h.keys r hr r' hr' key hk hk'), h.claimIds, ?_⟩
  intro op fs r' hr' hs
  rcases h.step op fs with h' | ⟨r, v, h', hpub⟩
  · exact .inl (h'.success r' hr' hs).1
  · rcases (h'.success r' hr' hs).1 with hold | hnew
    · exact .inl hold
    · obtain ⟨i, now, c, release, hop, hc, hstage, hid⟩ := hpub.claim
      exact .inr ⟨i, now, c, release, v, hop, hc, hstage, r, hpub.row, hnew.symm, hid, hpub.validating, hpub.verified⟩

end World

end Renop.Storage
