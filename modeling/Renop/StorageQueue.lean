import Renop.StorageBytes

/-!
# The queue of releases

`Queue` is the invariant of the releases, their quarantine and the claims. A row that a claim works on is `validating`
and still has the staged files that the claim has read, or it is terminal; only a `queued` row takes a new upload. The
set `S` holds the releases that may be `success`: an operation that does not publish keeps it as it is.
-/

namespace Renop.Storage
open Crash Renop.Index

namespace GPGReleaseStatus

def Terminal : GPGReleaseStatus → Prop
  | failed | success => True
  | _ => False

end GPGReleaseStatus

/-- The part of a row that an upload decides and validation depends on. -/
structure SameJob (r r' : GPGRelease) : Prop where
  id : r'.id = r.id
  repository : r'.repository = r.repository
  artifactPath : r'.artifactPath = r.artifactPath
  uploader : r'.uploader = r.uploader
  requireSignature : r'.requireSignature = r.requireSignature
  artifact : r'.artifact.stagingPath = r.artifact.stagingPath
  signature : r'.signature.stagingPath = r.signature.stagingPath

theorem SameJob.refl (r : GPGRelease) : SameJob r r := ⟨rfl, rfl, rfl, rfl, rfl, rfl, rfl⟩

theorem SameJob.trans {r r' r'' : GPGRelease} (h : SameJob r r') (h' : SameJob r' r'') : SameJob r r'' :=
  ⟨h'.id.trans h.id, h'.repository.trans h.repository, h'.artifactPath.trans h.artifactPath,
    h'.uploader.trans h.uploader, h'.requireSignature.trans h.requireSignature, h'.artifact.trans h.artifact,
    h'.signature.trans h.signature⟩

theorem SameJob.part {r r' : GPGRelease} (h : SameJob r r') (part : Part) :
    (r'.part part).stagingPath = (r.part part).stagingPath := by
  cases part
  exacts [h.artifact, h.signature]

/-- The signature that was read is the staged one; without one none is required. -/
def SignatureRead (q : StagingPath → Option Bytes) (r : GPGRelease) (signature : Option Bytes) : Prop :=
  match r.signature.stagingPath with
  | none => signature = none ∧ r.requireSignature = false
  | some path => ∃ bytes, signature = some bytes ∧ q path = some bytes

/-- The verification succeeded, on the staged signature and the staged artifact if there is one. -/
def Checked (crypto : Crypto) (q : StagingPath → Option Bytes) (r : GPGRelease) (verification : Option Verification) :
    Prop :=
  match r.signature.stagingPath with
  | none => verification = none ∧ r.requireSignature = false
  | some path => ∃ v, verification = some v ∧ q path = some v.signature ∧
      crypto.verifyDetached r.uploader v.artifact v.signature = some v.record.fingerprint ∧
      ∀ path, r.artifact.stagingPath = some path → q path = some v.artifact

/-- What a claim has found out about its release. -/
def Validation.Sound (crypto : Crypto) (q : StagingPath → Option Bytes) (r : GPGRelease) : Validation → Prop
  | .claimed | .failed _ => True
  | .signatureRead _ signature => SignatureRead q r signature
  | .verified verification => Checked crypto q r verification
  | .ready _ verification => Checked crypto q r verification

/-- The staged files of the row lie in its directory, under drawn names. -/
def Owns (s : Store) (r : GPGRelease) : Prop :=
  ∀ part path, (r.part part).stagingPath = some path →
    path.release = r.id ∧ ∃ uuid, path.name = .upload part uuid ∧ uuid < s.uuids

theorem Owns.mono {s s' : Store} {r : GPGRelease} (h : Owns s r) (hu : s.uuids ≤ s'.uuids) : Owns s' r := by
  intro part path hp
  obtain ⟨h1, uuid, h2, h3⟩ := h part path hp
  exact ⟨h1, uuid, h2, Nat.lt_of_lt_of_le h3 hu⟩

structure Rows (S : Nat → Prop) (s : Store) : Prop where
  ids : (s.releases.map GPGRelease.id).Nodup
  fresh : ∀ r ∈ s.releases, r.id < s.uuids
  own : ∀ r ∈ s.releases, Owns s r
  keys : ∀ r ∈ s.releases, ∀ r' ∈ s.releases, ∀ key, r.activeKey = some key → r'.activeKey = some key →
    r.id = r'.id
  active : ∀ r ∈ s.releases, ¬ r.status.Terminal → r.activeKey.isSome
  cleanup : ∀ r ∈ s.releases, r.cleanupPending = true → r.status.Terminal
  success : ∀ r ∈ s.releases, r.status = .success → S r.id ∧ r.activeKey = none

/-- A copy of a row that is terminal. -/
structure Terminated (s : Store) (r : GPGRelease) : Prop where
  terminal : r.status.Terminal
  row : ∃ q ∈ s.releases, q.id = r.id ∧ q.status = r.status
  own : Owns s r

/-- The row of a claim: validating, with what the claim knows of it still true, or terminal. -/
def Claim.Live (crypto : Crypto) (c : Claim) (s : Store) : Prop :=
  ∃ r ∈ s.releases, r.id = c.release.id ∧
    (r.status.Terminal ∨ r.status = .validating ∧ SameJob c.release r ∧ c.stage.Sound crypto s.quarantine c.release)

structure Queue (crypto : Crypto) (claims : List Claim) (observed : List GPGRelease) (S : Nat → Prop) (s : Store) : Prop
    extends Rows S s where
  claimIds : (claims.map fun c => c.release.id).Nodup
  live : ∀ c ∈ claims, c.Live crypto s
  ready : ∀ c ∈ claims, ∀ release verification, c.stage = .ready release verification → SameJob c.release release
  observed : ∀ o ∈ observed, o.cleanupPending = true → Terminated s o

section Rows
variable {S : Nat → Prop} {s s' : Store}

theorem Rows.eq_of_id (h : Rows S s) {r r' : GPGRelease} (hr : r ∈ s.releases) (hr' : r' ∈ s.releases)
    (hid : r.id = r'.id) : r = r' :=
  List.inj_on_of_nodup_map h.ids hr hr' hid

theorem mem_saveRelease {r q : GPGRelease} (hq : q ∈ (s.saveRelease r).releases) :
    (q ∈ s.releases ∧ q.id ≠ r.id) ∨ ∃ u, q = { r with uploader := u } := by
  unfold Store.saveRelease at hq
  dsimp only at hq
  split at hq
  · obtain ⟨q', hq', rfl⟩ := List.mem_map.1 hq
    split
    · exact .inr ⟨_, rfl⟩
    · exact .inl ⟨hq', ‹_›⟩
  · rename_i hnew
    rcases List.mem_append.1 hq with hq | hq
    · refine .inl ⟨hq, fun hid => hnew ?_⟩
      exact List.any_eq_true.2 ⟨q, hq, by simpa using hid⟩
    · exact .inr ⟨r.uploader, List.mem_singleton.1 hq⟩

theorem mem_saveRelease_of_ne {r q : GPGRelease} (hq : q ∈ s.releases) (hid : q.id ≠ r.id) :
    q ∈ (s.saveRelease r).releases := by
  unfold Store.saveRelease
  dsimp only
  split
  · exact List.mem_map.2 ⟨q, hq, if_neg hid⟩
  · exact List.mem_append_left _ hq

theorem mem_saveRelease_self {r q : GPGRelease} (hq : q ∈ s.releases) (hid : q.id = r.id) :
    { r with uploader := q.uploader } ∈ (s.saveRelease r).releases := by
  unfold Store.saveRelease
  dsimp only
  rw [if_pos (List.any_eq_true.2 ⟨q, hq, by simpa using hid⟩)]
  exact List.mem_map.2 ⟨q, hq, if_pos hid⟩

theorem saveRelease_ids (s : Store) (r : GPGRelease) (hnew : ∀ q ∈ s.releases, q.id ≠ r.id) :
    (s.saveRelease r).releases = s.releases ++ [r] := by
  unfold Store.saveRelease
  dsimp only
  rw [if_neg]
  intro hany
  obtain ⟨q, hq, hid⟩ := List.any_eq_true.1 hany
  exact hnew q hq (by simpa using hid)

theorem saveRelease_map_id (s : Store) {r q : GPGRelease} (hq : q ∈ s.releases) (hid : q.id = r.id) :
    (s.saveRelease r).releases.map GPGRelease.id = s.releases.map GPGRelease.id := by
  unfold Store.saveRelease
  dsimp only
  rw [if_pos (List.any_eq_true.2 ⟨q, hq, by simpa using hid⟩), List.map_map]
  refine List.map_congr_left fun q' _ => ?_
  dsimp only [Function.comp]
  split
  · rename_i h; exact h.symm
  · rfl

end Rows

/-! ### Quiet events -/

/-- The event leaves the releases and the quarantine alone. -/
def Event.Quiet : Event → Prop
  | .stage .. | .unstage _ | .clearQuarantine _ | .save _ => False
  | _ => True

theorem Event.OnFiles.quiet {p : String → Prop} {e : Event} (h : e.OnFiles p) : e.Quiet := by
  cases e <;> trivial

theorem Event.OnIndex.quiet {p : String → Prop} {e : Event} (h : e.OnIndex p) : e.Quiet := by
  cases e <;> trivial

theorem Event.OnReviews.quiet {e : Event} (h : e.OnReviews) : e.Quiet := by
  cases e <;> trivial

structure SameQueue (s s' : Store) : Prop where
  releases : s'.releases = s.releases
  quarantine : s'.quarantine = s.quarantine
  uuids : s.uuids ≤ s'.uuids

theorem SameQueue.frame : Prog.Frame SameQueue :=
  ⟨fun _ => ⟨rfl, rfl, Nat.le_refl _⟩, fun _ _ _ h h' =>
    ⟨h'.releases.trans h.releases, h'.quarantine.trans h.quarantine, Nat.le_trans h.uuids h'.uuids⟩⟩

theorem Event.Quiet.sameQueue {e : Event} (he : e.Quiet) (s : Store) : SameQueue s (e.apply s) := by
  cases e with
  | uuid => exact ⟨rfl, rfl, Nat.le_succ _⟩
  | stage | unstage | clearQuarantine | save => exact he.elim
  | _ => exact ⟨rfl, rfl, Nat.le_refl _⟩

theorem Trace.sameQueue {E : Event → Prop} {s s' : Store} (h : Trace E s s') (hE : ∀ e, E e → e.Quiet) :
    SameQueue s s' :=
  h.rel SameQueue.frame fun s e he => (hE e he).sameQueue s

/-! ### One event -/

section Events
variable {crypto : Crypto} {claims : List Claim} {observed : List GPGRelease} {S : Nat → Prop} {s s' : Store}

theorem Validation.Sound.congr {q q' : StagingPath → Option Bytes} {r : GPGRelease} {v : Validation}
    (h : v.Sound crypto q r) (hq : ∀ part path, (r.part part).stagingPath = some path → q' path = q path) :
    v.Sound crypto q' r := by
  have hchecked : ∀ verification, Checked crypto q r verification → Checked crypto q' r verification := by
    intro verification hc
    unfold Checked at hc ⊢
    split at hc
    · exact hc
    · rename_i path hpath
      obtain ⟨v, h1, h2, h3, h4⟩ := hc
      exact ⟨v, h1, (hq .signature path hpath).trans h2, h3, fun a ha => (hq .artifact a ha).trans (h4 a ha)⟩
  cases v with
  | claimed | failed _ => trivial
  | signatureRead repo signature =>
    have h' : SignatureRead q r signature := h
    show SignatureRead q' r signature
    clear h
    unfold SignatureRead at h' ⊢
    split at h'
    · exact h'
    · rename_i path hpath
      obtain ⟨bytes, h1, h2⟩ := h'
      exact ⟨bytes, h1, (hq .signature path hpath).trans h2⟩
  | verified verification => exact hchecked _ h
  | ready release verification => exact hchecked _ h

theorem Queue.claims_of (h : Queue crypto claims observed S s) (hrows : ∀ r ∈ s.releases, r ∈ s'.releases)
    (hq : ∀ r ∈ s.releases, r.status = .validating → ∀ part path, (r.part part).stagingPath = some path →
      s'.quarantine path = s.quarantine path) : ∀ c ∈ claims, c.Live crypto s' := by
  intro c hc
  obtain ⟨r, hr, hid, hlive⟩ := h.live c hc
  refine ⟨r, hrows r hr, hid, hlive.imp id fun ⟨hv, hsame, hsound⟩ => ⟨hv, hsame, hsound.congr ?_⟩⟩
  intro part path hpath
  exact hq r hr hv part path (by rw [hsame.part]; exact hpath)

theorem Queue.sameQueue (h : Queue crypto claims observed S s) (hs : SameQueue s s') :
    Queue crypto claims observed S s' := by
  have hmem : ∀ r, r ∈ s'.releases ↔ r ∈ s.releases := fun r => by rw [hs.releases]
  refine ⟨⟨by rw [hs.releases]; exact h.ids, fun r hr => ?_, fun r hr => ?_, ?_, ?_, ?_, ?_⟩, h.claimIds,
    h.claims_of (fun r hr => (hmem r).2 hr) (fun _ _ _ _ _ _ => by rw [hs.quarantine]), h.ready, ?_⟩
  · exact Nat.lt_of_lt_of_le (h.fresh r ((hmem r).1 hr)) hs.uuids
  · exact (h.own r ((hmem r).1 hr)).mono hs.uuids
  · rw [hs.releases]; exact h.keys
  · rw [hs.releases]; exact h.active
  · rw [hs.releases]; exact h.cleanup
  · rw [hs.releases]; exact h.success
  · intro o ho hc
    obtain ⟨h1, ⟨q, hq, h2⟩, h3⟩ := h.observed o ho hc
    exact ⟨h1, ⟨q, (hmem q).2 hq, h2⟩, h3.mono hs.uuids⟩

theorem Queue.setQuarantine (h : Queue crypto claims observed S s) {q : StagingPath → Option Bytes}
    (hq : ∀ r ∈ s.releases, r.status = .validating → ∀ part path, (r.part part).stagingPath = some path →
      q path = s.quarantine path) : Queue crypto claims observed S { s with quarantine := q } :=
  ⟨⟨h.ids, h.fresh, h.own, h.keys, h.active, h.cleanup, h.success⟩, h.claimIds, h.claims_of (fun _ hr => hr) hq,
    h.ready, fun o ho hc => ⟨(h.observed o ho hc).terminal, (h.observed o ho hc).row, (h.observed o ho hc).own⟩⟩

theorem Queue.stage (h : Queue crypto claims observed S s) {path : StagingPath} (bytes : Bytes)
    (hp : ∀ r ∈ s.releases, ∀ part, (r.part part).stagingPath ≠ some path) :
    Queue crypto claims observed S (s.stage path bytes) := by
  refine h.setQuarantine fun r hr _ part path' hpath => Function.update_of_ne ?_ _ _
  rintro rfl
  exact hp r hr part hpath

theorem Queue.unstage (h : Queue crypto claims observed S s) {path : StagingPath}
    (hp : ∀ r ∈ s.releases, r.status = .validating → ∀ part, (r.part part).stagingPath ≠ some path) :
    Queue crypto claims observed S (s.unstage path) := by
  refine h.setQuarantine fun r hr hv part path' hpath => Function.update_of_ne ?_ _ _
  rintro rfl
  exact hp r hr hv part hpath

theorem Queue.clearQuarantine (h : Queue crypto claims observed S s) {id : Nat}
    (hid : ∀ r ∈ s.releases, r.id = id → r.status ≠ .validating) :
    Queue crypto claims observed S (s.clearQuarantine id) := by
  refine h.setQuarantine fun r hr hv part path hpath => if_neg fun he => hid r hr ?_ hv
  rw [← (h.own r hr part path hpath).1]
  exact he

/-- A new release. -/
structure IsNew (s : Store) (r : GPGRelease) : Prop where
  id : ∀ q ∈ s.releases, q.id ≠ r.id
  fresh : r.id < s.uuids
  key : ∀ q ∈ s.releases, q.activeKey ≠ r.activeKey
  active : r.activeKey.isSome
  status : r.status = .queued
  cleanup : r.cleanupPending = false

theorem Queue.saveNew (h : Queue crypto claims observed S s) {r : GPGRelease} (hr : IsNew s r) (ho : Owns s r) :
    Queue crypto claims observed S (s.saveRelease r) := by
  have hsave := saveRelease_ids s r hr.id
  have hmem : ∀ q, q ∈ (s.saveRelease r).releases ↔ q ∈ s.releases ∨ q = r := by
    intro q; rw [hsave, List.mem_append, List.mem_singleton]
  refine ⟨⟨?_, ?_, ?_, ?_, ?_, ?_, ?_⟩, h.claimIds, ?_, h.ready, ?_⟩
  · rw [hsave, List.map_append, List.nodup_append]
    refine ⟨h.ids, List.nodup_singleton _, fun i hi j hj => ?_⟩
    obtain ⟨q, hq, rfl⟩ := List.mem_map.1 hi
    rw [List.map_singleton, List.mem_singleton] at hj
    rw [hj]; exact hr.id q hq
  · intro q hq
    rcases (hmem q).1 hq with hq | rfl
    exacts [h.fresh q hq, hr.fresh]
  · intro q hq
    rcases (hmem q).1 hq with hq | rfl
    exacts [h.own q hq, ho]
  · intro q hq q' hq' key hk hk'
    rcases (hmem q).1 hq with hold | rfl <;> rcases (hmem q').1 hq' with hold' | rfl
    · exact h.keys q hold q' hold' key hk hk'
    · exact absurd (hk.trans hk'.symm) (hr.key q hold)
    · exact absurd (hk'.trans hk.symm) (hr.key q' hold')
    · rfl
  · intro q hq
    rcases (hmem q).1 hq with hq | rfl
    exacts [h.active q hq, fun _ => hr.active]
  · intro q hq hc
    rcases (hmem q).1 hq with hq | rfl
    · exact h.cleanup q hq hc
    · rw [hr.cleanup] at hc; cases hc
  · intro q hq hs
    rcases (hmem q).1 hq with hq | rfl
    · exact h.success q hq hs
    · rw [hr.status] at hs; cases hs
  · exact h.claims_of (fun q hq => (hmem q).2 (.inl hq)) fun _ _ _ _ _ _ => rfl
  · intro o ho' hc
    obtain ⟨h1, ⟨q, hq, h2⟩, h3⟩ := h.observed o ho' hc
    exact ⟨h1, ⟨q, (hmem q).2 (.inl hq), h2⟩, h3⟩

/-- What a save may do to the row `q`. -/
structure Updates (S : Nat → Prop) (q r : GPGRelease) : Prop where
  id : q.id = r.id
  key : r.activeKey = q.activeKey ∨ r.activeKey = none
  active : ¬ r.status.Terminal → r.activeKey.isSome
  cleanup : r.cleanupPending = true → r.status.Terminal
  success : r.status = .success → S r.id ∧ r.activeKey = none
  terminal : q.status.Terminal → r.status = q.status
  validating : q.status = .validating → r.status.Terminal ∨ r.status = .validating ∧
    SameJob q { r with uploader := q.uploader }

theorem Queue.saveUpdate (h : Queue crypto claims observed S s) {q r : GPGRelease} (hq : q ∈ s.releases)
    (hu : Updates S q r) (ho : Owns s r) : Queue crypto claims observed S (s.saveRelease r) := by
  have hself := mem_saveRelease_self hq hu.id
  -- a row of the new table is an old one with another id, or the saved one
  have hcases : ∀ q' ∈ (s.saveRelease r).releases, (q' ∈ s.releases ∧ q'.id ≠ r.id) ∨ ∃ u,
      q' = { r with uploader := u } :=
    fun q' hq' => mem_saveRelease hq'
  refine ⟨⟨by rw [saveRelease_map_id s hq hu.id]; exact h.ids, ?_, ?_, ?_, ?_, ?_, ?_⟩, h.claimIds, ?_,
    h.ready, ?_⟩
  · intro q' hq'
    rcases hcases q' hq' with ⟨hold, -⟩ | ⟨u, rfl⟩
    · exact h.fresh q' hold
    · show r.id < s.uuids
      rw [← hu.id]; exact h.fresh q hq
  · intro q' hq'
    rcases hcases q' hq' with ⟨hold, -⟩ | ⟨u, rfl⟩
    · exact h.own q' hold
    · intro part path hp
      refine ho part path ?_
      cases part <;> exact hp
  · -- the saved row has the key of the old one, or none
    have hkey : ∀ q' ∈ s.releases, ∀ key, q'.activeKey = some key → r.activeKey = some key → q'.id = r.id := by
      intro q' hq' key hk hk'
      rcases hu.key with hk2 | hk2
      · exact (h.keys q' hq' q hq key hk (hk2.symm.trans hk')).trans hu.id
      · rw [hk2] at hk'; cases hk'
    intro q' hq' q'' hq'' key hk hk'
    rcases hcases q' hq' with ⟨hold, hne⟩ | ⟨u, rfl⟩ <;> rcases hcases q'' hq'' with ⟨hold', hne'⟩ | ⟨u', rfl⟩
    · exact h.keys q' hold q'' hold' key hk hk'
    · exact absurd (hkey q' hold key hk hk') hne
    · exact absurd (hkey q'' hold' key hk' hk) hne'
    · rfl
  · intro q' hq' hlive
    rcases hcases q' hq' with ⟨hold, -⟩ | ⟨u, rfl⟩
    exacts [h.active q' hold hlive, hu.active hlive]
  · intro q' hq' hc
    rcases hcases q' hq' with ⟨hold, -⟩ | ⟨u, rfl⟩
    exacts [h.cleanup q' hold hc, hu.cleanup hc]
  · intro q' hq' hs
    rcases hcases q' hq' with ⟨hold, -⟩ | ⟨u, rfl⟩
    exacts [h.success q' hold hs, hu.success hs]
  · intro c hc
    obtain ⟨q', hq', hid, hlive⟩ := h.live c hc
    by_cases hsame : q'.id = r.id
    · obtain rfl := h.eq_of_id hq' hq (hsame.trans hu.id.symm)
      refine ⟨_, hself, hsame.symm.trans hid, ?_⟩
      rcases hlive with ht | ⟨hv, hjob, hsound⟩
      · left
        show r.status.Terminal
        rw [hu.terminal ht]; exact ht
      · exact (hu.validating hv).imp id fun ⟨hv', hjob'⟩ => ⟨hv', hjob.trans hjob', hsound⟩
    · exact ⟨q', mem_saveRelease_of_ne hq' hsame, hid, hlive⟩
  · intro o ho' hc
    obtain ⟨h1, ⟨q', hq', hid, hst⟩, h3⟩ := h.observed o ho' hc
    refine ⟨h1, ?_, h3⟩
    by_cases hsame : q'.id = r.id
    · obtain rfl := h.eq_of_id hq' hq (hsame.trans hu.id.symm)
      refine ⟨_, hself, hsame.symm.trans hid, ?_⟩
      show r.status = o.status
      rw [hu.terminal (by rw [hst]; exact h1), hst]
    · exact ⟨q', mem_saveRelease_of_ne hq' hsame, hid, hst⟩

end Events

end Renop.Storage
