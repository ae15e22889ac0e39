import Renop.StorageEnqueue

/-!
# The queue through claims, failures and restarts

What the publisher does to the queue apart from publishing: a claim takes a `queued` row, its validation reads the
staged files, a failed or expired row is made terminal before its quarantine is cleared, and a restart puts the
`validating` rows back once no claim is left.
-/

namespace Renop.Storage
open Crash Renop.Index

section Claims
variable {crypto : Crypto} {claims : List Claim} {observed : List GPGRelease} {S : Nat → Prop} {s : Store}

/-! ### Claims -/

theorem map_validating {r : GPGRelease} (h : Rows S s) (hr : r ∈ s.releases) (hq : r.status = .queued) :
    { s with releases := s.releases.map fun q =>
        if q.id = r.id ∧ q.status = .queued then { q with status := .validating } else q } =
      s.saveRelease { r with status := .validating } := by
  unfold Store.saveRelease
  dsimp only
  rw [if_pos (List.any_eq_true.2 ⟨r, hr, by simp⟩)]
  congr 1
  refine List.map_congr_left fun q hmem => ?_
  by_cases hid : q.id = r.id
  · obtain rfl := h.eq_of_id hmem hr hid
    rw [if_pos ⟨rfl, hq⟩, if_pos rfl]
  · rw [if_neg fun h => hid h.1, if_neg hid]

theorem Queue.not_claimed (h : Queue crypto claims observed S s) {r : GPGRelease} (hr : r ∈ s.releases)
    (hq : r.status = .queued) : r.id ∉ claims.map fun c => c.release.id := by
  intro hmem
  obtain ⟨c, hc, hid⟩ := List.mem_map.1 hmem
  obtain ⟨q, hq', hid', hlive⟩ := h.live c hc
  obtain rfl := h.eq_of_id hq' hr (hid'.trans hid)
  rw [hq] at hlive
  rcases hlive with ht | ⟨hv, -⟩
  · exact ht
  · cases hv

theorem Queue.claim (h : Queue crypto claims observed S s) {r : GPGRelease} (hr : r ∈ s.releases)
    (hq : r.status = .queued) :
    Queue crypto (claims ++ [⟨{ r with status := .validating }, .claimed⟩]) observed S
      (s.saveRelease { r with status := .validating }) := by
  have hnot : r.cleanupPending ≠ true := by
    intro hc
    have := h.cleanup r hr hc
    rw [hq] at this
    exact this
  have hsave : Queue crypto claims observed S (s.saveRelease { r with status := .validating }) := by
    refine h.saveUpdate hr ⟨rfl, .inl rfl, fun _ => h.active r hr (by rw [hq]; exact id), fun hc => absurd hc hnot, nofun,
      fun ht => ?_, fun hv => ?_⟩ (h.own r hr)
    · rw [hq] at ht; exact ht.elim
    · rw [hq] at hv; cases hv
  refine ⟨hsave.toRows, ?_, ?_, ?_, hsave.observed⟩
  · rw [List.map_append, List.nodup_append]
    refine ⟨h.claimIds, List.nodup_singleton _, fun i hi j hj => ?_⟩
    rw [List.map_singleton, List.mem_singleton] at hj
    rintro rfl
    rw [hj] at hi
    exact h.not_claimed hr hq hi
  · intro c hc
    rcases List.mem_append.1 hc with hc | hc
    · exact hsave.live c hc
    · rw [List.mem_singleton.1 hc]
      exact ⟨_, mem_saveRelease_self hr rfl, rfl, .inr ⟨rfl, SameJob.refl _, trivial⟩⟩
  · intro c hc release verification hstage
    rcases List.mem_append.1 hc with hc | hc
    · exact h.ready c hc release verification hstage
    · rw [List.mem_singleton.1 hc] at hstage
      cases hstage

theorem safe_claimNextGPGRelease (now : Int) :
    Safe (Queue crypto claims observed S) (Queue crypto claims observed S) (claimNextGPGRelease now) fun r s =>
      match r with
      | none => Queue crypto claims observed S s
      | some release => Queue crypto (claims ++ [⟨release, .claimed⟩]) observed S s := by
  refine .step (fun _ h => h) fun s hs => ?_
  dsimp only
  split
  · exact ⟨_, _, rfl, hs⟩
  · rename_i r rest hsort
    have hmem : r ∈ s.releases.filter fun r => r.claimable (now - gpgOptionalSignatureGrace) := by
      rw [← List.mem_mergeSort, hsort]
      exact List.mem_cons_self ..
    obtain ⟨hr, hclaim⟩ := List.mem_filter.1 hmem
    have hq : r.status = .queued := by
      simp only [GPGRelease.claimable, Bool.and_eq_true, decide_eq_true_eq] at hclaim
      exact hclaim.1
    refine ⟨_, _, rfl, ?_⟩
    rw [map_validating hs.toRows hr hq]
    exact hs.claim hr hq

/-! ### Validation -/

theorem safe_validateReleaseStagingPaths {J : Store → Prop} (r : GPGRelease) :
    Safe J J (validateReleaseStagingPaths r) fun _ => J := by
  unfold validateReleaseStagingPaths
  split
  · exact .pure _ fun _ h => h
  · exact Safe.throw _ fun _ h => h

theorem safe_readStaged {J : Store → Prop} (path : StagingPath) :
    Safe J J (readStaged path) fun bytes s => J s ∧ s.quarantine path = some bytes := by
  refine .step_or (fun _ h => h) fun s hs => ?_
  rcases hq : s.quarantine path with - | bytes
  · exact .inr ⟨any_mayFail, _, rfl⟩
  · exact .inl ⟨bytes, s, rfl, hs, hq⟩

theorem safe_readStored {J : Store → Prop} (path : String) :
    Safe J J (readStored path) fun bytes s => J s ∧ s.bytesAt path = some bytes := by
  refine .step_or (fun _ h => h) fun s hs => ?_
  rcases hq : s.bytesAt path with - | bytes
  · exact .inr ⟨any_mayFail, _, rfl⟩
  · exact .inl ⟨bytes, s, rfl, hs, hq⟩

theorem safe_ensurePathMutable {J : Store → Prop} (repo : Repository) (path : String) :
    Safe J J (ensurePathMutable repo path) fun _ => J := by
  refine .step_or (fun _ h => h) fun s hs => ?_
  split
  · exact .inr ⟨any_mayFail, _, rfl⟩
  · exact .inl ⟨(), s, rfl, hs⟩

theorem safe_validateClaim {J : Store → Prop} (r : GPGRelease) :
    Safe J J (validateClaim r) fun result s => J s ∧ SignatureRead s.quarantine r result.2 := by
  refine .bind (safe_validateReleaseStagingPaths r) fun _ => ?_
  refine .bind (.read (Q := fun _ => J) fun _ h => h) fun repo => ?_
  cases repo with
  | none => exact Safe.throw _ fun _ h => h
  | some repo =>
    refine .bind (Q := fun _ => J) (.when (fun _ => safe_ensurePathMutable repo _) fun _ _ h => h) fun _ => ?_
    rcases hpath : r.signature.stagingPath with - | path
    · dsimp only
      split
      · exact Safe.throw _ fun _ h => h
      · rename_i hreq
        refine .pure _ fun s hs => ⟨hs, ?_⟩
        unfold SignatureRead
        rw [hpath]
        exact ⟨rfl, by simpa using hreq⟩
    · dsimp only
      split
      · exact Safe.throw _ fun _ h => h
      refine .bind (safe_readStaged path) fun bytes => ?_
      split
      · exact Safe.throw _ fun _ h => h.1
      · refine .pure _ fun s hs => ⟨hs.1, ?_⟩
        unfold SignatureRead
        rw [hpath]
        exact ⟨bytes, rfl, hs.2⟩

theorem safe_readArtifact {J : Store → Prop} (r : GPGRelease) :
    Safe J J (readArtifact r) fun bytes s => J s ∧ ∀ path, r.artifact.stagingPath = some path →
      s.quarantine path = some bytes := by
  unfold readArtifact
  split
  · rename_i path hpath
    refine Prog.Spec.conseq (safe_readStaged path) (fun _ h => h) fun bytes s hs => ⟨hs.1, fun path' h => ?_⟩
    cases hpath.symm.trans h
    exact hs.2
  · rename_i hpath
    exact Prog.Spec.conseq (safe_readStored _) (fun _ h => h) fun bytes s hs =>
      ⟨hs.1, fun path h => absurd (hpath.symm.trans h) nofun⟩

theorem safe_verifyGPGRelease {J : Store → Prop} (r : GPGRelease) (signature : Option Bytes) :
    Safe J J (verifyGPGRelease crypto r signature) fun verification s =>
      J s ∧ (SignatureRead s.quarantine r signature → Checked crypto s.quarantine r verification) := by
  cases signature with
  | none =>
    refine .pure _ fun s hs => ⟨hs, fun hread => ?_⟩
    unfold SignatureRead at hread
    unfold Checked
    split at hread
    · exact ⟨rfl, hread.2⟩
    · obtain ⟨bytes, h, -⟩ := hread
      cases h
  | some signature =>
    refine .bind (safe_readArtifact r) fun artifact => ?_
    rcases hv : crypto.verifyDetached r.uploader artifact signature with - | fingerprint
    · exact Safe.throw _ fun _ h => h.1
    · refine .pure _ fun s hs => ⟨hs.1, fun hread => ?_⟩
      unfold SignatureRead at hread
      unfold Checked
      split at hread
      · cases hread.1
      · obtain ⟨bytes, h, hbytes⟩ := hread
        cases h
        exact ⟨_, rfl, hbytes, hv, hs.2⟩

theorem safe_verifyClaim {J : Store → Prop} (repo : Repository) (r : GPGRelease) (signature : Option Bytes) :
    Safe J J (verifyClaim crypto repo r signature) fun verification s =>
      J s ∧ (SignatureRead s.quarantine r signature → Checked crypto s.quarantine r verification) := by
  refine .bind (safe_verifyGPGRelease r signature) fun verification => ?_
  split
  · exact Safe.throw _ fun _ h => h.1
  · exact .pure _ fun _ h => h

theorem safe_ensureDigests {J : Store → Prop} (staged : Staged) :
    Safe J J (ensureDigests crypto staged) fun staged' s => J s ∧ staged'.stagingPath = staged.stagingPath := by
  unfold ensureDigests
  split
  · exact .pure _ fun _ h => ⟨h, rfl⟩
  split
  · exact .bind (safe_readStaged _) fun bytes => .pure _ fun _ h => ⟨h.1, rfl⟩
  · exact .pure _ fun _ h => ⟨h, rfl⟩

theorem safe_ensureReleaseDigests {J : Store → Prop} (r : GPGRelease) :
    Safe J J (ensureReleaseDigests crypto r) fun r' s => J s ∧ SameJob r r' := by
  refine .bind (safe_ensureDigests r.artifact) fun artifact => ?_
  let J' (s : Store) : Prop := J s ∧ artifact.stagingPath = r.artifact.stagingPath
  refine .bind ((safe_ensureDigests (J := J') r.signature).weaken fun _ h => h.1) fun signature => ?_
  exact .pure _ fun s hs => ⟨hs.1.1, rfl, rfl, rfl, rfl, rfl, hs.1.2, hs.2⟩

theorem Queue.setClaim (h : Queue crypto claims observed S s) {i : Nat} {c : Claim} (hc : claims[i]? = some c)
    (stage : Validation) (hsound : c.stage.Sound crypto s.quarantine c.release → stage.Sound crypto s.quarantine c.release)
    (hready : ∀ release verification, stage = .ready release verification → SameJob c.release release) :
    Queue crypto (claims.set i { c with stage := stage }) observed S s := by
  obtain ⟨hi, hget⟩ := List.getElem?_eq_some_iff.1 hc
  have hmem : c ∈ claims := hget ▸ List.getElem_mem hi
  have hids : (claims.set i { c with stage := stage }).map (fun c => c.release.id) = claims.map fun c => c.release.id := by
    rw [List.map_set]
    subst hget
    rw [← List.getElem_map (fun c : Claim => c.release.id) (h := by simpa using hi), List.set_getElem_self]
  refine ⟨h.toRows, by rw [hids]; exact h.claimIds, fun d hd => ?_, fun d hd => ?_, h.observed⟩
  · rcases List.mem_or_eq_of_mem_set hd with hd | rfl
    · exact h.live d hd
    · obtain ⟨r, hr, hid, hlive⟩ := h.live c hmem
      exact ⟨r, hr, hid, hlive.imp id fun ⟨hv, hsame, hs⟩ => ⟨hv, hsame, hsound hs⟩⟩
  · rcases List.mem_or_eq_of_mem_set hd with hd | rfl
    · exact h.ready d hd
    · exact hready

theorem Queue.eraseClaim (h : Queue crypto claims observed S s) (i : Nat) :
    Queue crypto (claims.eraseIdx i) observed S s :=
  have hsub := List.eraseIdx_sublist claims i
  ⟨h.toRows, h.claimIds.sublist (hsub.map _), fun c hc => h.live c (hsub.subset hc), fun c hc => h.ready c (hsub.subset hc),
    h.observed⟩

/-! ### Terminal releases -/

theorem Terminated.mono {s' : Store} {r : GPGRelease} (h : Terminated s r) (hs : SameQueue s s') : Terminated s' r :=
  ⟨h.terminal, by rw [hs.releases]; exact h.row, h.own.mono hs.uuids⟩

theorem Queue.clearTerminated (h : Queue crypto claims observed S s) {r : GPGRelease} (hr : Terminated s r) :
    Queue crypto claims observed S (s.clearQuarantine r.id) := by
  obtain ⟨q, hq, hid, hst⟩ := hr.row
  refine h.clearQuarantine fun q' hq' hid' hv => ?_
  obtain rfl := h.eq_of_id hq' hq (hid'.trans hid.symm)
  have := hr.terminal
  rw [← hst, hv] at this
  exact this

theorem Queue.saveTerminated (h : Queue crypto claims observed S s) {r : GPGRelease} (hr : Terminated s r) :
    Queue crypto claims observed S (s.saveRelease { r with activeKey := none, cleanupPending := false }) := by
  obtain ⟨q, hq, hid, hst⟩ := hr.row
  refine h.saveUpdate hq ⟨hid, .inr rfl, fun hn => absurd hr.terminal hn, nofun, fun hs => ⟨?_, rfl⟩, fun _ => hst.symm,
    fun hv => ?_⟩ hr.own
  · have := (h.success q hq (hst.trans hs)).1
    rw [hid] at this
    exact this
  · have := hr.terminal
    rw [← hst, hv] at this
    exact this.elim

theorem quiet_reindexReleasePaths (r : GPGRelease) : Prog.Within (Trace Event.Quiet) (reindexReleasePaths r) :=
  .forEach (Trace.frame _) fun _ _ => within_reindexPathIfPresent (p := fun _ => True) (fun _ h => h.quiet) trivial

theorem within_unblockReleasePaths {E : Event → Prop} {p : String → Prop} (hE : ∀ e, Event.OnIndex p e → E e)
    (r : GPGRelease) (hp : ∀ path ∈ releaseBlockedPaths r, p path) : Prog.Within (Trace E) (unblockReleasePaths r) := by
  have hF := Trace.frame E
  refine .forEach hF fun path hpath => ?_
  split
  · exact .pure hF ()
  refine .bind hF (.attempt (within_query hF _ _)) fun pending => ?_
  split
  · exact within_updateIndex fun s => Trace.single (hE (.unblock path) (hp path hpath)) rfl
  · exact .pure hF ()

theorem quiet_unblockReleasePaths (r : GPGRelease) : Prog.Within (Trace Event.Quiet) (unblockReleasePaths r) :=
  within_unblockReleasePaths (p := fun _ => True) (fun _ h => h.quiet) r fun _ _ => trivial

theorem quiet_cleanupPublishedReleaseFiles (r : GPGRelease) :
    Prog.Within (Trace Event.Quiet) (cleanupPublishedReleaseFiles r) := by
  have hF := Trace.frame Event.Quiet
  unfold cleanupPublishedReleaseFiles
  dsimp only
  split
  · refine within_tryAll hF _ (fun m hm => ?_) none
    simp only [List.mem_cons, List.not_mem_nil, or_false] at hm
    rcases hm with rfl | rfl | rfl
    · exact within_deleteIndexedFile (p := fun _ => True) (fun _ h => h.quiet) trivial
    · exact within_removeArtifactChecksums (p := fun _ => True) (fun _ h => h.quiet) fun _ _ => trivial
    · exact quiet_removeArtifactSignature _ _ _
  split
  · exact quiet_removeArtifactSignature _ _ _
  · exact .pure hF ()

theorem safe_cleanupTerminalGPGRelease (r : GPGRelease) :
    Safe (Queue crypto claims observed S)
      (fun s => Queue crypto claims observed S s ∧ (r.cleanupPending = true → Terminated s r))
      (cleanupTerminalGPGRelease r) fun _ => Queue crypto claims observed S := by
  unfold cleanupTerminalGPGRelease
  split
  · exact .pure _ fun _ h => h.1
  rename_i hpending
  simp only [Bool.not_eq_true', Bool.not_eq_false] at hpending
  let P (s : Store) : Prop := Queue crypto claims observed S s ∧ Terminated s r
  have hP : ∀ s, P s → Queue crypto claims observed S s := fun _ h => h.1
  have hquiet : Safe (Queue crypto claims observed S) P (Prog.when (r.status = .failed ∧ r.publishStarted)
      (cleanupPublishedReleaseFiles r)) fun _ => P :=
    .of_within (.when (Trace.frame _) fun _ => quiet_cleanupPublishedReleaseFiles r)
      (fun _ _ hs ht => ⟨hs.1.sameQueue (ht.sameQueue fun _ h => h), hs.2.mono (ht.sameQueue fun _ h => h)⟩) hP
  have hend : Safe (Queue crypto claims observed S) P (endGPGRelease r) fun _ => Queue crypto claims observed S := by
    refine .bind hquiet fun _ => ?_
    refine .bind (Q := fun _ => P) (.bind (((safe_validateReleaseStagingPaths (J := P) r)).weaken hP) fun _ =>
      Safe.act _ hP fun s hs => ⟨hs.1.clearTerminated hs.2, hs.2.terminal, hs.2.row, hs.2.own⟩) fun _ => ?_
    exact Safe.act _ hP fun s hs => hs.1.saveTerminated hs.2
  refine .bind (hend.conseq (fun s hs => ⟨hs.1, hs.2 hpending⟩) fun _ _ h => h) fun _ => ?_
  refine .bind (Queue.quiet (quiet_unblockReleasePaths r)) fun _ => ?_
  exact Queue.quiet (.when (Trace.frame _) fun _ => quiet_reindexReleasePaths r)

theorem Queue.failRow (h : Queue crypto claims observed S s) {r : GPGRelease} (hr : r ∈ s.releases)
    (hst : r.status ≠ .success) (reason : String) :
    Queue crypto claims observed S (s.saveRelease (r.asFailed reason)) ∧
      Terminated (s.saveRelease (r.asFailed reason)) (r.asFailed reason) := by
  refine ⟨h.saveUpdate hr ⟨rfl, .inl rfl, fun hn => absurd trivial hn, fun _ => trivial, nofun, fun ht => ?_,
    fun _ => .inl trivial⟩ (h.own r hr),
    trivial, ⟨_, mem_saveRelease_self hr rfl, rfl, rfl⟩, h.own r hr⟩
  revert ht hst
  rcases r.status <;> simp [GPGReleaseStatus.Terminal, GPGRelease.asFailed]

theorem safe_failGPGRelease (r : GPGRelease) (reason : String) :
    Safe (Queue crypto claims observed S)
      (fun s => Queue crypto claims observed S s ∧ r ∈ s.releases ∧ r.status ≠ .success) (failGPGRelease r reason)
      fun _ => Queue crypto claims observed S := by
  refine .bind (Q := fun _ s => Queue crypto claims observed S s ∧ Terminated s (r.asFailed reason))
    (Safe.act _ (fun _ h => h.1) fun s hs => hs.1.failRow hs.2.1 hs.2.2 reason) fun _ => ?_
  exact Prog.Spec.conseq (safe_cleanupTerminalGPGRelease _) (fun s hs => ⟨hs.1, fun _ => hs.2⟩) fun _ _ h => h

theorem Queue.terminated (h : Queue crypto claims observed S s) {r : GPGRelease} (hr : r ∈ s.releases)
    (hc : r.cleanupPending = true) : Terminated s r :=
  ⟨h.cleanup r hr hc, ⟨r, hr, rfl, rfl⟩, h.own r hr⟩

theorem safe_getActiveGPGRelease_row {J : Store → Prop} (key : Option String) :
    Safe J J (getActiveGPGRelease key) fun active s => J s ∧ ∀ r, active = some r → r ∈ s.releases ∧
      r.activeKey = key := by
  cases key with
  | none => exact .pure _ fun s hs => ⟨hs, fun r h => by simp at h⟩
  | some key =>
    refine Prog.Spec.conseq (safe_getActiveGPGRelease key) (fun _ h => h) fun active s hs => ⟨hs.1, ?_⟩
    rintro r rfl
    exact activeRelease?_mem hs.2

theorem safe_failClaimedGPGRelease (claimed : GPGRelease) (reason : String) :
    Safe (Queue crypto claims observed S) (Queue crypto claims observed S) (failClaimedGPGRelease claimed reason)
      fun _ => Queue crypto claims observed S := by
  refine .bind (safe_getActiveGPGRelease_row _) fun active => ?_
  cases active with
  | none => exact .pure _ fun _ h => h.1
  | some current =>
    dsimp only
    split
    · exact .pure _ fun _ h => h.1
    split
    · split
      · exact Prog.Spec.conseq (safe_cleanupTerminalGPGRelease current)
          (fun s hs => ⟨hs.1, hs.1.terminated (hs.2 current rfl).1⟩) fun _ _ h => h
      · exact .pure _ fun _ h => h.1
    · rename_i hst
      rw [not_not] at hst
      exact Prog.Spec.conseq (safe_failGPGRelease current reason)
        (fun s hs => ⟨hs.1, (hs.2 current rfl).1, by rw [hst]; exact nofun⟩) fun _ _ h => h

theorem safe_expireGPGReleaseIfIncomplete (r : GPGRelease) (now : Int) :
    Safe (Queue crypto claims observed S) (Queue crypto claims observed S) (expireGPGReleaseIfIncomplete r now)
      fun _ => Queue crypto claims observed S := by
  refine .bind (safe_getActiveGPGRelease_row _) fun active => ?_
  cases active with
  | none => exact .pure _ fun _ h => h.1
  | some current =>
    dsimp only
    split
    · exact .pure _ fun _ h => h.1
    · rename_i hcond
      have hst : current.status = .queued := by_contra fun h => hcond (.inr (.inl h))
      exact Prog.Spec.conseq (safe_failGPGRelease current _)
        (fun s hs => ⟨hs.1, (hs.2 current rfl).1, by rw [hst]; exact nofun⟩) fun _ _ h => h

theorem mem_pendingReleases {r : GPGRelease} (hr : r ∈ s.pendingReleases) : r ∈ s.releases := by
  rw [Store.pendingReleases, List.mem_mergeSort] at hr
  exact List.mem_of_mem_filter hr

theorem Rows.pending_ids (h : Rows S s) : (s.pendingReleases.map GPGRelease.id).Nodup := by
  rw [Store.pendingReleases, ((List.mergeSort_perm _ _).map _).nodup_iff]
  exact h.ids.sublist (List.filter_sublist.map _)

theorem safe_discardPendingGPGUploads (localPrefix reason : String) :
    Safe (Queue crypto claims observed S) (Queue crypto claims observed S) (discardPendingGPGUploads localPrefix reason)
      fun _ => Queue crypto claims observed S := by
  let R (rs : List GPGRelease) (s : Store) : Prop :=
    Queue crypto claims observed S s ∧ (rs.map GPGRelease.id).Nodup ∧ ∀ r ∈ rs, r ∈ s.releases
  refine .bind (Q := R) (Safe.query _ (fun _ h => h) fun s hs => ⟨hs, hs.pending_ids, fun r => mem_pendingReleases⟩)
    fun rs => ?_
  refine Prog.Spec.conseq (.forEach (R := R) (fun r rs => ?_) rs) (fun _ h => h) fun _ _ h => h.1
  split
  · refine .pure _ fun s hs => ⟨hs.1, (List.nodup_cons.1 hs.2.1).2, fun q hq => hs.2.2 q (List.mem_cons_of_mem _ hq)⟩
  · rename_i hactive
    refine Safe.act _ (fun _ h => h.1) fun s hs => ?_
    obtain ⟨h, hnd, hrows⟩ := hs
    rw [List.map_cons, List.nodup_cons] at hnd
    have hr := hrows r (List.mem_cons_self ..)
    have hst : r.status ≠ .success := fun hs => hactive (.inl (h.success r hr hs).2)
    refine ⟨(h.failRow hr hst reason).1, hnd.2, fun q hq => ?_⟩
    refine mem_saveRelease_of_ne (hrows q (List.mem_cons_of_mem _ hq)) fun hid => hnd.1 ?_
    exact List.mem_map.2 ⟨q, hq, hid⟩

/-! ### Restart -/

theorem Rows.queue (h : Rows S s) : Queue crypto [] [] S s :=
  ⟨h, List.nodup_nil, fun _ h => absurd h List.not_mem_nil, fun _ h => absurd h List.not_mem_nil,
    fun _ h => absurd h List.not_mem_nil⟩

theorem Rows.resetValidating (h : Rows S s) :
    Rows S { s with releases := s.releases.map fun r =>
      if r.status = .validating ∧ r.activeKey.isSome then { r with status := .queued } else r } := by
  have hsame : ∀ r : GPGRelease,
      let r' := if r.status = .validating ∧ r.activeKey.isSome then { r with status := .queued } else r
      r'.id = r.id ∧ r'.activeKey = r.activeKey ∧ r'.cleanupPending = r.cleanupPending ∧
        (∀ part, r'.part part = r.part part) ∧ (r'.status = r.status ∨ r.status = .validating ∧
            r'.status = .queued) := by
    intro r
    dsimp only
    split
    · rename_i hv
      exact ⟨rfl, rfl, rfl, fun part => by cases part <;> rfl, .inr ⟨hv.1, rfl⟩⟩
    · exact ⟨rfl, rfl, rfl, fun _ => rfl, .inl rfl⟩
  constructor
  · rw [List.map_map]
    refine cast (congrArg List.Nodup (List.map_congr_left fun r _ => ?_)) h.ids
    exact (hsame r).1.symm
  · intro r' hr'
    obtain ⟨r, hr, rfl⟩ := List.mem_map.1 hr'
    rw [(hsame r).1]
    exact h.fresh r hr
  · intro r' hr' part path hp
    obtain ⟨r, hr, rfl⟩ := List.mem_map.1 hr'
    rw [(hsame r).2.2.2.1] at hp
    rw [(hsame r).1]
    exact h.own r hr part path hp
  · intro r' hr' q' hq' key hk hk'
    obtain ⟨r, hr, rfl⟩ := List.mem_map.1 hr'
    obtain ⟨q, hq, rfl⟩ := List.mem_map.1 hq'
    rw [(hsame r).2.1] at hk
    rw [(hsame q).2.1] at hk'
    rw [(hsame r).1, (hsame q).1]
    exact h.keys r hr q hq key hk hk'
  · intro r' hr' hlive
    obtain ⟨r, hr, rfl⟩ := List.mem_map.1 hr'
    rw [(hsame r).2.1]
    refine h.active r hr ?_
    rcases (hsame r).2.2.2.2 with hst | ⟨hst, -⟩
    · rw [← hst]; exact hlive
    · rw [hst]; exact id
  · intro r' hr' hc
    obtain ⟨r, hr, rfl⟩ := List.mem_map.1 hr'
    rw [(hsame r).2.2.1] at hc
    have hterm := h.cleanup r hr hc
    rcases (hsame r).2.2.2.2 with hst | ⟨hst, -⟩
    · rw [hst]; exact hterm
    · rw [hst] at hterm; exact hterm.elim
  · intro r' hr' hs
    obtain ⟨r, hr, rfl⟩ := List.mem_map.1 hr'
    rw [(hsame r).1, (hsame r).2.1]
    rcases (hsame r).2.2.2.2 with hst | ⟨-, hst⟩
    · exact h.success r hr (hst.symm.trans hs)
    · rw [hst] at hs; cases hs

theorem Rows.sameQueue {s' : Store} (h : Rows S s) (hs : SameQueue s s') : Rows S s' :=
  ((@Rows.queue ⟨fun _ _ _ => none, fun _ => .empty⟩ _ _ h).sameQueue hs).toRows

theorem safe_restoreGPGReleaseState : Safe (Rows S) (Rows S) restoreGPGReleaseState fun _ => Rows S := by
  have hquiet : ∀ {α : Type} {m : StoreM α}, Prog.Within (Trace Event.Quiet) m → Safe (Rows S) (Rows S) m fun _ =>
      Rows S :=
    fun h => .of_within h (fun _ _ hs ht => hs.sameQueue (ht.sameQueue fun _ h => h)) fun _ h => h
  refine .bind (Q := fun _ => Rows S) (Safe.act _ (fun _ h => h) fun s hs => hs.resetValidating) fun _ => ?_
  refine .bind (Q := fun _ => Rows S) (Safe.query _ (fun _ h => h) fun _ h => h) fun releases => ?_
  refine .bind (hquiet (.forEach (Trace.frame _) fun r _ => ?_)) fun _ => ?_
  · refine .bind (Trace.frame _) ?_ fun _ => .when (Trace.frame _) fun _ => quiet_blockReleasePaths r
    unfold validateReleaseStagingPaths
    split
    exacts [.pure (Trace.frame _) (), .throw (Trace.frame _) _]
  · exact Safe.act _ (fun _ h => h) fun s hs => ⟨hs.ids, hs.fresh, hs.own, hs.keys, hs.active, hs.cleanup, hs.success⟩

theorem Rows.reboot (h : Rows S s) : Rows S s.reboot := by
  have hquiet : ∀ {α : Type} {m : StoreM α}, Prog.Within (Trace Event.Quiet) m → Safe (Rows S) (Rows S) m fun _ =>
      Rows S :=
    fun h => .of_within h (fun _ _ hs ht => hs.sameQueue (ht.sameQueue fun _ h => h)) fun _ h => h
  have hF := Trace.frame Event.Quiet
  have hstartup : Safe (Rows S) (Rows S) startup fun _ => Rows S := by
    refine .bind safe_restoreGPGReleaseState fun _ => ?_
    refine hquiet (.bind hF (.bind hF (within_query hF _ _) fun paths => ?_) fun _ => ?_)
    · exact .forEach hF fun path _ => within_updateIndex fun s => Trace.single (e := .block path) trivial rfl
    refine .bind hF (.read hF _) fun paths => .forEach hF fun path _ => ?_
    exact within_reindexPathIfPresent (p := fun _ => True) (fun _ h => h.quiet) trivial
  exact hstartup.run_state (fun _ _ h => h) (@Rows.sameQueue _ _ { s with index := .newFileIndex } h
    ⟨rfl, rfl, Nat.le_refl _⟩) []

end Claims

end Renop.Storage
