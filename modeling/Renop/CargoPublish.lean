import Renop.CargoService
import Renop.QuotaCalls

/-!
# A failed publish request

`preparePublication` only reads, so a request that it refuses changes nothing. Afterwards a request that fails undoes
what it has written, except for the quota: it is charged before anything is stored, and once a reservation is committed
nothing takes it back (`failed_publish_undone`).
-/

namespace Renop.Cargo

open Sql Interleave

/-! ### The reads -/

section Prepare
variable {env : Env} {repo : Repo} {req : PublishRequest} {w : World} {p : Prepared} {allowed : Step → Bool → Prop}

/-- What is known of a state in which the checks let a request through. -/
structure Prepared.Of (env : Env) (repo : Repo) (req : PublishRequest) (w : World) (p : Prepared) : Prop where
  valid : validatePackage env.text env.lib req.name req.version = true
  packageExists : p.packageExists = (w.package? env repo.name (normalizeCrateName env.text req.name)).isSome
  fresh : w.package? env repo.name (normalizeCrateName env.text req.name) = none →
    checkNewPackage env repo req w = .ok () ∧ w.index (cargoIndexPath repo req.name) = none
  existing : w.package? env repo.name (normalizeCrateName env.text req.name) ≠ none →
    checkExistingPackage env repo req w = .ok ()
  crate : w.crates (cratePath repo req.name req.version) = none
  indexExisted : p.indexExisted = (w.index (cargoIndexPath repo req.name)).isSome
  lines : rewriteIndex env.text env.lib ((w.index (cargoIndexPath repo req.name)).getD []) req.entry = .ok p.lines
  publication : ∃ m, p.publication = req.publication env repo m
  versions : p.publishedVersions =
    (repo.policy = .newPackages ∧ w.db.versionsOf (sanitizeCargoKey env.text repo.name
      (normalizeCrateName env.text req.name)) ≠ [])
  review : p.reviewRequired = Cargo.reviewRequired repo.policy p.publishedVersions

theorem checkPublishRequest_ok (h : checkPublishRequest env req = .ok ()) :
    validatePackage env.text env.lib req.name req.version = true := by
  unfold checkPublishRequest at h
  obtain ⟨-, h⟩ := require_bind_ok.1 h
  exact (require_bind_ok.1 h).1

theorem wp_readPublishedVersions {normalizedName : String} {α : Type} {k : Bool → Request α}
    {Q : Except ServiceError α → World → Prop} (herror : ∀ e, Q (.error e) w)
    (hok : (k (repo.policy = .newPackages ∧ w.db.versionsOf (sanitizeCargoKey env.text repo.name normalizedName) ≠ [])).wp
      allowed Q w) :
    ((readPublishedVersions env repo normalizedName).bind k).wp allowed Q w := by
  unfold readPublishedVersions
  cases hpolicy : repo.policy with
  | newPackages =>
    refine Proc.wp_ask_bind herror fun b hb => ?_
    cases hb
    simpa [hpolicy] using hok
  | off => simpa [hpolicy, Proc.bind] using hok
  | everyVersion => simpa [hpolicy, Proc.bind] using hok

theorem wp_admitName {packageRecord : Option CargoPackage} {Q : Except ServiceError Unit → World → Prop}
    (herror : ∀ e, Q (.error e) w) (hok : (packageRecord = none → checkNewPackage env repo req w = .ok () ∧
      w.index (cargoIndexPath repo req.name) = none) →
      (packageRecord ≠ none → checkExistingPackage env repo req w = .ok ()) → Q (.ok ()) w) :
    (admitName env repo req packageRecord).wp allowed Q w := by
  unfold admitName
  cases packageRecord with
  | none =>
    refine Proc.wp_ask_bind herror fun _ hnew => ?_
    refine Proc.wp_ask_bind herror fun _ hindex => ?_
    rw [Proc.wp_ofExcept]
    cases checkUpstream repo req with
    | error e => exact herror e
    | ok _ => exact hok (fun _ => ⟨hnew, require_ok.1 hindex⟩) (absurd rfl)
  | some package => exact Proc.wp_ask herror fun _ hold => hok nofun fun _ => hold

theorem wp_stagePublication {packageRecord : Option CargoPackage} {Q : Except ServiceError Prepared → World → Prop}
    (herror : ∀ e, Q (.error e) w) (hok : ∀ p m, w.crates (cratePath repo req.name req.version) = none →
      rewriteIndex env.text env.lib ((w.index (cargoIndexPath repo req.name)).getD []) req.entry = .ok p.lines →
      p.packageExists = packageRecord.isSome → p.indexExisted = (w.index (cargoIndexPath repo req.name)).isSome →
      p.publication = req.publication env repo m →
      p.publishedVersions = (repo.policy = .newPackages ∧
        w.db.versionsOf (sanitizeCargoKey env.text repo.name (normalizeCrateName env.text req.name)) ≠ []) →
      p.reviewRequired = reviewRequired repo.policy p.publishedVersions → Q (.ok p) w) :
    (stagePublication env repo req packageRecord).wp allowed Q w := by
  unfold stagePublication
  simp only [Proc.bind_eq]
  refine Proc.wp_ask_bind herror fun _ hcrate => ?_
  refine Proc.wp_ask_bind herror fun _ _ => ?_
  refine Proc.wp_ofExcept_bind (fun e _ => herror e) fun manifest _ => ?_
  refine Proc.wp_ask_bind herror fun lines hlines => ?_
  cases hlines
  refine Proc.wp_ofExcept_bind (fun e _ => herror e) fun _ _ => ?_
  refine Proc.wp_ask_bind herror fun _ _ => ?_
  refine Proc.wp_ofExcept_bind (fun e _ => herror e) fun out hout => ?_
  refine wp_readPublishedVersions herror ?_
  exact hok _ manifest (require_ok.1 hcrate) (mapError_ok.1 hout) rfl rfl rfl (by simp) rfl

theorem wp_preparePublication {Q : Except ServiceError Prepared → World → Prop} (herror : ∀ e, Q (.error e) w)
    (hok : ∀ p, Prepared.Of env repo req w p → Q (.ok p) w) : (preparePublication env repo req).wp allowed Q w := by
  unfold preparePublication
  simp only [Proc.bind_eq]
  refine Proc.wp_ofExcept_bind (fun e _ => herror e) fun _ hcheck => ?_
  refine Proc.wp_ask_bind herror fun _ _ => ?_
  refine Proc.wp_ask_bind herror fun packageRecord hpackage => ?_
  cases hpackage
  rw [Proc.wp_bind]
  refine wp_admitName herror fun hfresh hexisting => wp_stagePublication herror ?_
  intro p m hcrate hlines hexists hindex hpublication hversions hreview
  exact hok p ⟨checkPublishRequest_ok hcheck, hexists, hfresh, hexisting, hcrate, hindex, hlines, ⟨m, hpublication⟩,
    hversions, hreview⟩

theorem exec_preparePublication (fault : Step → Bool) (w : World) :
    ((preparePublication env repo req).exec fault w).2 = w ∧
      ∀ p, ((preparePublication env repo req).exec fault w).1 = .ok p → Prepared.Of env repo req w p := by
  refine (Proc.wp_exec (Q := fun r s => s = w ∧ ∀ p, r = .ok p → Prepared.Of env repo req w p)).1 ?_
  refine wp_preparePublication (fun e => ?_) fun p hp => ?_
  · exact ⟨rfl, fun p h => by simp at h⟩
  · refine ⟨rfl, fun q hq => ?_⟩
    cases hq
    exact hp

end Prepare

/-! ### The quota -/

section QuotaSpec
variable {env : Env} {req : PublishRequest}

theorem reserve_usage {teamPrefix : String} {quota quota' : Quota.QuotaDB} {reservation : Option String}
    (h : reserve env req teamPrefix quota = .ok (reservation, quota')) : quota'.usage = quota.usage := by
  unfold reserve at h
  split at h
  · cases h; rfl
  · obtain ⟨⟨claim, q⟩, hreserve, h⟩ := bind_ok.1 h
    cases h
    exact (Quota.reserve_claim (mapError_ok.1 hreserve)).1

theorem commit_usage {teamPrefix id : String} {quota quota₁ quota₂ : Quota.QuotaDB}
    (h : reserve env req teamPrefix quota = .ok (some id, quota₁))
    (hcommit : commitReservation env req id quota₁ = .ok quota₂) :
    quota₂.usage ≠ quota.usage := by
  have hsame := reserve_usage h
  unfold reserve at h
  split at h
  · cases h
  · obtain ⟨⟨claim, q⟩, hreserve, h⟩ := bind_ok.1 h
    simp only [Except.ok.injEq, Prod.mk.injEq, Option.ite_none_left_eq_some, Bool.not_eq_true, Option.some.injEq] at h
    obtain ⟨⟨hlimited, rfl⟩, rfl⟩ := h
    obtain ⟨hid, owner, window, hrows⟩ := (Quota.reserve_claim (mapError_ok.1 hreserve)).2 hlimited
    obtain ⟨r, hfind, -, -, -, hused, -⟩ := Quota.commit_cases (mapError_ok.1 hcommit)
    rw [hrows, hid] at hfind
    simp only [List.find?_cons, decide_true, Option.some.injEq] at hfind
    subst hfind
    intro heq
    -- the number of publications in the window grew by one
    have hcount := hused owner window
    rw [if_pos ⟨rfl, rfl⟩] at hcount
    have hpub : (quota₂.used owner window).publications = (quota.used owner window).publications + 1 := by
      rw [hcount]
      simp [Quota.Amounts.add, Quota.QuotaDB.used, hsame]
    have hold : quota₂.used owner window = quota.used owner window := by simp [Quota.QuotaDB.used, heq]
    rw [hold] at hpub
    generalize (quota.used owner window).publications = n at hpub
    have hone : n - n = 1 := by
      nth_rewrite 1 [hpub]
      rw [Int64.add_comm]
      simp
    simp at hone

variable (env req) in
/-- The reservation is committed, so the usage counts it. -/
def Charged (fault : Step → Bool) (teamPrefix : String) (quota : Quota.QuotaDB) : Prop :=
  fault ⟨.reserveQuota, false⟩ = false ∧ fault ⟨.commitQuota, false⟩ = false ∧
    ∃ id quota₁ quota₂, reserve env req teamPrefix quota = .ok (some id, quota₁) ∧
      commitReservation env req id quota₁ =
      .ok quota₂

/-- The blocked paths after a request that needs a review, or one that does not, has given up. -/
def World.unblocked (w : World) (reviewRequired : Bool) (path : String) : String → Bool :=
  if reviewRequired then Function.update w.blocked path false else w.blocked

@[simp] theorem exec_unhide (fault : Step → Bool) (w : World) (reviewRequired : Bool) (path : String) :
    (unhide reviewRequired path).exec fault w = (.ok (), { w with blocked := w.unblocked reviewRequired path }) := by
  cases reviewRequired <;> rfl

/-- The blocked paths while the crate is stored. -/
def World.hidden (w : World) (reviewRequired : Bool) (path : String) : String → Bool :=
  if reviewRequired then Function.update w.blocked path true else w.blocked

@[simp] theorem exec_hide (fault : Step → Bool) (w : World) (reviewRequired : Bool) (path : String) :
    (hide reviewRequired path).exec fault w = (.ok (), { w with blocked := w.hidden reviewRequired path }) := by
  cases reviewRequired <;> rfl

theorem exec_releaseQuota (fault : Step → Bool) (w : World) (reservation : Option String) :
    ∃ quota, quota.usage = w.quota.usage ∧ (releaseQuota env reservation).exec fault w = (.ok (), { w with quota }) := by
  cases reservation with
  | none => exact ⟨w.quota, rfl, rfl⟩
  | some id =>
    unfold releaseQuota
    simp only [Proc.bind_eq, Proc.exec_bind, Proc.exec_attempt, Proc.exec_tell]
    cases fault ⟨.releaseQuota, true⟩ with
    | true => exact ⟨w.quota, rfl, rfl⟩
    | false =>
      refine ⟨_, ?_, rfl⟩
      unfold Quota.releasePublicationQuotaReservation
      dsimp only
      split <;> rfl

theorem exec_takeQuota (fault : Step → Bool) (w : World) (p : Prepared) (path : String) :
    (Charged env req fault p.teamPrefix w.quota ∧ ∃ quota, quota.usage ≠ w.quota.usage ∧
      (takeQuota env req p path).exec fault w = (.ok (), { w with quota })) ∨
    (¬ Charged env req fault p.teamPrefix w.quota ∧
      ∃ quota, quota.usage = w.quota.usage ∧ (takeQuota env req p path).exec fault w = (.ok (), { w with quota })) ∨
    (¬ Charged env req fault p.teamPrefix w.quota ∧
      ∃ e quota, quota.usage = w.quota.usage ∧ (takeQuota env req p path).exec fault w =
        (.error e, { w with quota, blocked := w.unblocked p.reviewRequired path })) := by
  unfold takeQuota
  simp only [Proc.bind_eq, Proc.exec_bind, Proc.exec_attempt]
  unfold reserveQuota
  rw [Proc.exec_call]
  cases hfail : fault ⟨.reserveQuota, false⟩ with
  | true =>
    refine .inr (.inr ⟨by simp [Charged, hfail],
      .status 429 "Cargo publication quota exceeded", w.quota, rfl, ?_⟩)
    simp [Proc.exec_bind]
  | false =>
    cases hreserve : reserve env req p.teamPrefix w.quota with
    | error e =>
      refine .inr (.inr ⟨by simp [Charged, hreserve],
        .status 429 "Cargo publication quota exceeded", w.quota, rfl, ?_⟩)
      simp [Proc.exec_bind, Except.map]
    | ok r =>
      obtain ⟨reservation, quota₁⟩ := r
      have husage := reserve_usage hreserve
      cases reservation with
      | none =>
        refine .inr (.inl ⟨by simp [Charged, hreserve], quota₁, husage, ?_⟩)
        simp [Except.map, commitQuota, Proc.exec_bind, Proc.exec_attempt]
      | some id =>
        -- the commit fails, is refused or succeeds
        have hrefused : ∀ (e : ServiceError), ∃ quota, quota.usage = w.quota.usage ∧
            Proc.exec fault (do
              unhide p.reviewRequired path
              releaseQuota env (some id)
              (Proc.throw e : Request Unit)) { w with quota := quota₁ } =
            (.error e, { w with quota, blocked := w.unblocked p.reviewRequired path }) := by
          intro e
          obtain ⟨quota, hq, hexec⟩ := @exec_releaseQuota env fault
            { w with quota := quota₁, blocked := w.unblocked p.reviewRequired path } (some id)
          refine ⟨quota, hq.trans husage, ?_⟩
          simp only [Proc.bind_eq, Proc.exec_bind, exec_unhide]
          simp only [World.unblocked] at hexec ⊢
          rw [hexec]
          rfl
        simp only [Except.map, Bool.false_eq_true, if_false, Proc.exec_bind, Proc.exec_attempt, commitQuota, Proc.exec_tell]
        cases hfail₂ : fault ⟨.commitQuota, false⟩ with
        | true =>
          obtain ⟨quota, hq, hexec⟩ := hrefused (.status 503 "Cargo publication quota is unavailable")
          exact .inr (.inr ⟨by simp [Charged, hfail₂], _, quota, hq, hexec⟩)
        | false =>
          cases hcommit : commitReservation env req id quota₁ with
          | error e =>
            obtain ⟨quota, hq, hexec⟩ := hrefused (.status 503 "Cargo publication quota is unavailable")
            refine .inr (.inr ⟨?_, _, quota, hq, hexec⟩)
            rintro ⟨-, -, id', q₁, q₂, h₁, h₂⟩
            rw [hreserve] at h₁
            cases h₁
            rw [hcommit] at h₂
            cases h₂
          | ok quota₂ =>
            exact .inl ⟨⟨hfail, hfail₂, id, quota₁, quota₂, hreserve, hcommit⟩, quota₂,
              commit_usage hreserve hcommit, rfl⟩

end QuotaSpec

/-! ### Undoing -/

section Undo
variable {env : Env} {repo : Repo} {req : PublishRequest} {fault : Step → Bool} {w : World}

theorem exec_cleanUp (p : Request Unit) :
    (cleanUp p).exec fault w = match p.exec fault w with
      | (.ok (), w') => (.ok (), w')
      | (.error _, w') => (.ok (), { w' with failures := w'.failures + 1 }) := by
  unfold cleanUp
  simp only [Proc.bind_eq, Proc.exec_bind, Proc.exec_attempt]
  rcases p.exec fault w with ⟨_ | _, w'⟩ <;> rfl

theorem exec_cleanUp_fst (p : Request Unit) : ((cleanUp p).exec fault w).1 = .ok () := by
  rw [exec_cleanUp]
  rcases p.exec fault w with ⟨_ | _, _⟩ <;> rfl

theorem exec_cleanUp_bind {α : Type} (p : Request Unit) (k : Unit → Request α) :
    ((cleanUp p).bind k).exec fault w = (k ()).exec fault ((cleanUp p).exec fault w).2 := by
  have h := @exec_cleanUp_fst fault w p
  rw [Proc.exec_bind]
  generalize (cleanUp p).exec fault w = r at h ⊢
  obtain ⟨r, w'⟩ := r
  cases h
  rfl

section Wp
variable {allowed : Step → Bool → Prop} {Q : Except ServiceError Unit → World → Prop} {undo : Bool} {path : String}

theorem wp_commitIndex {lines : List String} (hfail : allowed ⟨.commitIndex, undo⟩ true → Q (.error .storage) w)
    (hok : Q (.ok ()) { w with index := Function.update w.index path (some lines) }) :
    (commitIndex undo path lines).wp allowed Q w :=
  Proc.wp_tell hfail (fun _ h => by cases h; exact hok) fun _ h => by cases h

theorem wp_deleteIndex (hfail : allowed ⟨.deleteIndex, undo⟩ true → Q (.error .storage) w)
    (hok : Q (.ok ()) { w with index := Function.update w.index path none }) : (deleteIndex undo path).wp allowed Q w :=
  Proc.wp_tell hfail (fun _ h => by cases h; exact hok) fun _ h => by cases h

theorem wp_deleteCrate (hfail : allowed ⟨.deleteCrate, undo⟩ true → Q (.error .storage) w)
    (hok : Q (.ok ()) { w with crates := Function.update w.crates path none }) : (deleteCrate undo path).wp allowed Q w :=
  Proc.wp_tell hfail (fun _ h => by cases h; exact hok) fun _ h => by cases h

end Wp

theorem exec_rollbackCargoIndexVersion {path version : String} {indexExisted : Bool}
    (h : ((rollbackCargoIndexVersion env path version indexExisted).exec fault w).1 = .ok ()) :
    ∃ file, ((rollbackCargoIndexVersion env path version indexExisted).exec fault w).2 =
        { w with index := Function.update w.index path file } ∧
      (indexExisted = false → file = none) ∧
      (indexExisted = true → ∃ lines out, w.index path = some lines ∧ file = some out ∧
        rewriteRemoveVersion env.text env.lib lines version = .ok (out, true)) := by
  refine (Proc.wp_exec (Q := fun r w' => r = .ok () → ∃ file,
    w' = { w with index := Function.update w.index path file } ∧
    (indexExisted = false → file = none) ∧ (indexExisted = true → ∃ lines out, w.index path = some lines ∧
      file = some out ∧ rewriteRemoveVersion env.text env.lib lines version = .ok (out, true)))).1 ?_ h
  clear h
  unfold rollbackCargoIndexVersion
  cases indexExisted with
  | false =>
    exact wp_deleteIndex (fun _ h => by simp at h) fun _ => ⟨none, rfl, fun _ => rfl, by simp⟩
  | true =>
    simp only [Bool.not_true, Bool.false_eq_true, if_false, Proc.bind_eq]
    refine Proc.wp_ask_bind (fun e h => by simp at h) fun file hfile => ?_
    cases hfile
    refine Proc.wp_ofExcept_bind (fun e _ h => by simp at h) fun lines hlines => ?_
    refine Proc.wp_ask_bind (fun e h => by simp at h) fun _ _ => ?_
    refine Proc.wp_ofExcept_bind (fun e _ h => by simp at h) fun x hx => ?_
    obtain ⟨out, removed⟩ := x
    refine Proc.wp_ofExcept_bind (fun e _ h => by simp at h) fun _ hremoved => ?_
    have hremoved : removed = true := require_ok.1 hremoved
    have hout := mapError_ok.1 hx
    rw [hremoved] at hout
    exact wp_commitIndex (fun _ h => by simp at h) fun _ =>
      ⟨some out, rfl, by simp, fun _ => ⟨lines, out, orError_ok.1 hlines, rfl, hout⟩⟩

theorem removed_eq {lines out : List String} {entry : IndexEntry} (hlib : env.lib.Lawful env.text)
    (hrewrite : rewriteIndex env.text env.lib lines entry = .ok out) {out' : List String}
    (hremove : rewriteRemoveVersion env.text env.lib out entry.version = .ok (out', true)) : out' = lines := by
  obtain ⟨-, rfl, -, hdiff⟩ := rewriteIndex_ok hrewrite
  obtain ⟨-, -, rfl, -⟩ := rewriteRemoveVersion_ok.1 hremove
  have hkeep : ∀ line ∈ lines, lineVersion env.lib line ≠ some entry.version := by
    intro line hline hv
    obtain ⟨e, he, hev⟩ := Option.map_eq_some_iff.1 hv
    obtain ⟨name, version, hname, hsame⟩ := hdiff line hline
    rw [hlib.unmarshalName_eq line e he] at hname
    cases hname
    rw [hev, sameVersion_self hlib] at hsame
    exact absurd hsame (by simp)
  rw [List.filter_append, List.filter_eq_self.2 (by simpa using hkeep)]
  simp [lineVersion_encode hlib]

theorem exec_cleanUp_deleteCrate {path : String}
    (h : ((cleanUp (deleteCrate true path)).exec fault w).2.failures = w.failures) :
    (cleanUp (deleteCrate true path)).exec fault w = (.ok (), { w with crates := Function.update w.crates path none }) := by
  rw [exec_cleanUp] at h ⊢
  unfold deleteCrate at h ⊢
  rw [Proc.exec_tell] at h ⊢
  cases hfail : fault ⟨.deleteCrate, true⟩ with
  | true => simp [hfail] at h
  | false => simp

theorem exec_rollbackPublication (path cratePath version : String) (indexExisted : Bool) :
    ((rollbackPublication env path cratePath version indexExisted).exec fault w).2.failures = w.failures ∧
    (((rollbackPublication env path cratePath version indexExisted).exec fault w).1 = .ok () →
      ∃ file, ((rollbackPublication env path cratePath version indexExisted).exec fault w).2 =
        { w with crates := Function.update w.crates cratePath none, index := Function.update w.index path file } ∧
      (indexExisted = false → file = none) ∧
      (indexExisted = true → ∃ lines out, w.index path = some lines ∧ file = some out ∧
        rewriteRemoveVersion env.text env.lib lines version = .ok (out, true))) := by
  have hindex : ∀ w₁ : World,
      ((rollbackCargoIndexVersion env path version indexExisted).exec fault w₁).2.failures = w₁.failures := by
    intro w₁
    refine (Proc.wp_exec (Q := fun _ (w' : World) => w'.failures = w₁.failures)).1 ?_
    unfold rollbackCargoIndexVersion
    cases indexExisted with
    | false => exact wp_deleteIndex (fun _ => rfl) rfl
    | true =>
      simp only [Bool.not_true, Bool.false_eq_true, if_false, Proc.bind_eq]
      refine Proc.wp_ask_bind (fun e => rfl) fun file hfile => ?_
      refine Proc.wp_ofExcept_bind (fun e _ => rfl) fun lines hlines => ?_
      refine Proc.wp_ask_bind (fun e => rfl) fun _ _ => ?_
      refine Proc.wp_ofExcept_bind (fun e _ => rfl) fun x hx => ?_
      refine Proc.wp_ofExcept_bind (fun e _ => rfl) fun _ hremoved => ?_
      exact wp_commitIndex (fun _ => rfl) rfl
  unfold rollbackPublication
  simp only [Proc.bind_eq, Proc.exec_bind, Proc.exec_attempt]
  unfold deleteCrate
  rw [Proc.exec_tell]
  cases hfail : fault ⟨.deleteCrate, true⟩ with
  | true =>
    have h := hindex w
    simp only [if_true]
    generalize (rollbackCargoIndexVersion env path version indexExisted).exec fault w = r at h ⊢
    rcases r with ⟨_ | _, w'⟩
    · exact ⟨h, fun h' => by simp at h'⟩
    · exact ⟨h, fun h' => by simp at h'⟩
  | false =>
    have h := hindex { w with crates := Function.update w.crates cratePath none }
    have hok := @exec_rollbackCargoIndexVersion env fault { w with crates := Function.update w.crates cratePath none } path
      version indexExisted
    simp only [Bool.false_eq_true, if_false]
    generalize (rollbackCargoIndexVersion env path version indexExisted).exec fault
      { w with crates := Function.update w.crates cratePath none } = r at h hok ⊢
    rcases r with ⟨_ | _, w'⟩
    · exact ⟨h, fun h' => by simp at h'⟩
    · exact ⟨h, fun _ => hok rfl⟩

theorem exec_cleanUp_rollbackPublication {path cratePath version : String} {indexExisted : Bool}
    (h : ((cleanUp (rollbackPublication env path cratePath version indexExisted)).exec fault w).2.failures = w.failures) :
    ∃ file, (cleanUp (rollbackPublication env path cratePath version indexExisted)).exec fault w =
        (.ok (), { w with crates := Function.update w.crates cratePath none, index := Function.update w.index path file }) ∧
      (indexExisted = false → file = none) ∧
      (indexExisted = true → ∃ lines out, w.index path = some lines ∧ file = some out ∧
        rewriteRemoveVersion env.text env.lib lines version = .ok (out, true)) := by
  obtain ⟨hfailures, hok⟩ := @exec_rollbackPublication env fault w path cratePath version indexExisted
  rw [exec_cleanUp] at h ⊢
  generalize (rollbackPublication env path cratePath version indexExisted).exec fault w = r at h hfailures hok ⊢
  rcases r with ⟨e | _, w'⟩
  · simp only at h hfailures
    omega
  · obtain ⟨file, hw', hfile⟩ := hok rfl
    exact ⟨file, by rw [← hw'], hfile⟩

/-! ### The writes -/

theorem exec_abandonReview (path : String) :
    ∃ e, ((abandonReview path).exec fault w).1 = .error e ∧
      (((abandonReview path).exec fault w).2.failures = w.failures → ((abandonReview path).exec fault w).2 =
        { w with crates := Function.update w.crates path none, blocked := Function.update w.blocked path false }) := by
  unfold abandonReview
  simp only [Proc.bind_eq, exec_cleanUp_bind]
  refine ⟨_, rfl, fun h => ?_⟩
  rw [exec_cleanUp_deleteCrate h]
  rfl

theorem createReview_not_pending {p : Publication} {publishedVersions : Bool} {reviews : Review.ReviewDB} {id : String}
    (h : createReview env repo req p publishedVersions w = .ok (reviews, ⟨false, id⟩)) : reviews = w.reviews := by
  unfold createReview Review.createOrUpdatePublicationReview at h
  obtain ⟨q, -, h⟩ := bind_ok.1 h
  split at h
  · obtain ⟨actor, -, h⟩ := bind_ok.1 h
    cases actor with
    | none => cases h; rfl
    | some actorID =>
      obtain ⟨reviews₁, -, h⟩ := bind_ok.1 h
      unfold Review.attach at h
      obtain ⟨_, -, h⟩ := bind_ok.1 h
      obtain ⟨_, -, h⟩ := bind_ok.1 h
      cases h
  · obtain ⟨-, h⟩ := require_bind_ok.1 h
    split at h
    · cases h
    · obtain ⟨-, h⟩ := require_bind_ok.1 h
      unfold Review.attach at h
      obtain ⟨_, -, h⟩ := bind_ok.1 h
      obtain ⟨_, -, h⟩ := bind_ok.1 h
      cases h

theorem exec_queueCrate (p : Prepared) (path : String) :
    ((queueCrate env repo req p path).exec fault w).1 = .ok () ∨
    (∃ e, ((queueCrate env repo req p path).exec fault w).1 = .error e ∧
      (((queueCrate env repo req p path).exec fault w).2.failures = w.failures →
        ((queueCrate env repo req p path).exec fault w).2 =
          { w with crates := Function.update w.crates path none, blocked := Function.update w.blocked path false })) := by
  unfold queueCrate queuePublicationReview
  simp only [Proc.bind_eq, Proc.exec_bind, Proc.exec_attempt, Proc.exec_call]
  cases hfail : fault ⟨.queueReview, false⟩ with
  | true => exact .inr (exec_abandonReview path)
  | false =>
    cases hcreate : createReview env repo req p.publication p.publishedVersions w with
    | error e => exact .inr (exec_abandonReview path)
    | ok r =>
      obtain ⟨reviews, ⟨pending, id⟩⟩ := r
      cases pending with
      | true => exact .inl rfl
      | false =>
        cases createReview_not_pending hcreate
        exact .inr (exec_abandonReview path)

/-- The staged index belongs to the file in this state. -/
structure Staged (env : Env) (repo : Repo) (req : PublishRequest) (w : World) (p : Prepared) : Prop where
  indexExisted : p.indexExisted = (w.index (cargoIndexPath repo req.name)).isSome
  lines : rewriteIndex env.text env.lib ((w.index (cargoIndexPath repo req.name)).getD []) req.entry = .ok p.lines

theorem exec_cleanUp_restores (hlib : env.lib.Lawful env.text) {p : Prepared} (hp : Staged env repo req w p) {path : String}
    (h : ((cleanUp (rollbackPublication env (cargoIndexPath repo req.name) path req.version p.indexExisted)).exec fault
      { w with index := Function.update w.index (cargoIndexPath repo req.name) (some p.lines) }).2.failures = w.failures) :
    ((cleanUp (rollbackPublication env (cargoIndexPath repo req.name) path req.version p.indexExisted)).exec fault
      { w with index := Function.update w.index (cargoIndexPath repo req.name) (some p.lines) }).2 =
      { w with crates := Function.update w.crates path none } := by
  obtain ⟨file, hexec, hnew, hold⟩ := exec_cleanUp_rollbackPublication h
  have hfile : file = w.index (cargoIndexPath repo req.name) := by
    cases hw : w.index (cargoIndexPath repo req.name) with
    | none => exact hnew (by rw [hp.indexExisted, hw]; rfl)
    | some lines =>
      obtain ⟨lines₁, out, hlines₁, rfl, hremove⟩ := hold (by rw [hp.indexExisted, hw]; rfl)
      simp only [Function.update_self, Option.some.injEq] at hlines₁
      subst hlines₁
      have hrewrite := hp.lines
      rw [hw] at hrewrite
      rw [removed_eq hlib hrewrite hremove]
      rfl
  rw [hexec, hfile]
  show ({ w with index := _, crates := _ } : World) = _
  rw [Function.update_idem, Function.update_eq_self]

theorem exec_exposeCrate (hlib : env.lib.Lawful env.text) {p : Prepared} (hp : Staged env repo req w p) (path : String) :
    ((exposeCrate env repo req p path).exec fault w).1 = .ok () ∨
    (∃ e, ((exposeCrate env repo req p path).exec fault w).1 = .error e ∧
      (((exposeCrate env repo req p path).exec fault w).2.failures = w.failures →
        ((exposeCrate env repo req p path).exec fault w).2 = { w with crates := Function.update w.crates path none })) := by
  unfold exposeCrate commitIndex
  simp only [Proc.bind_eq, Proc.exec_bind, Proc.exec_attempt, Proc.exec_tell]
  cases hindex : fault ⟨.commitIndex, false⟩ with
  | true =>
    simp only [if_true, exec_cleanUp_bind]
    refine .inr ⟨_, rfl, fun h => ?_⟩
    show ((cleanUp (deleteCrate true path)).exec fault w).2 = _
    rw [exec_cleanUp_deleteCrate h]
  | false =>
    simp only [Bool.false_eq_true, if_false, Proc.exec_bind, Proc.exec_attempt, recordPublication, Proc.exec_tell]
    cases hrecord : fault ⟨.record, false⟩ with
    | true =>
      simp only [if_true, exec_cleanUp_bind]
      exact .inr ⟨_, rfl, fun h => exec_cleanUp_restores hlib hp h⟩
    | false =>
      simp only [Bool.false_eq_true, if_false]
      cases hdb : recordCargoPublication env.text w.db p.publication.package p.publication.version
          p.publication.version.publisher req.userID with
      | error e =>
        simp only [Except.map, Except.mapError, exec_cleanUp_bind]
        exact .inr ⟨_, rfl, fun h => exec_cleanUp_restores hlib hp h⟩
      | ok db => exact .inl rfl

/-! ### All or nothing -/

@[simp] theorem unblocked_hidden (w : World) (quota : Quota.QuotaDB) (reviewRequired : Bool) (path : String) :
    ({ w with blocked := w.hidden reviewRequired path, quota } : World).unblocked reviewRequired path =
      w.unblocked reviewRequired path := by
  cases reviewRequired
  · rfl
  · simp [World.unblocked, World.hidden]

theorem exec_storeCrate (hlib : env.lib.Lawful env.text) {p : Prepared} (hp : Prepared.Of env repo req w p)
    (quota : Quota.QuotaDB) {path : String} (hpath : path = cratePath repo req.name req.version) {r : Except ServiceError Unit × World}
    (hr : (storeCrate env repo req p path).exec fault { w with blocked := w.hidden p.reviewRequired path, quota } = r) :
    r.1 = .ok () ∨
    (∃ e, r.1 = .error e ∧
      (r.2.failures = w.failures → r.2 = { w with quota, blocked := w.unblocked p.reviewRequired path })) := by
  have hcrates : Function.update (Function.update w.crates path (some req.crate)) path none = w.crates := by
    rw [Function.update_idem, hpath, ← hp.crate, Function.update_eq_self]
  subst hr
  unfold storeCrate
  simp only [Proc.bind_eq, Proc.exec_bind, Proc.exec_attempt, commitCrate, Proc.exec_tell]
  cases hcommit : fault ⟨.commitCrate, false⟩ with
  | true =>
    simp only [if_true, Proc.exec_bind, exec_unhide, unblocked_hidden]
    exact .inr ⟨_, rfl, fun _ => rfl⟩
  | false =>
    simp only [Bool.false_eq_true, if_false]
    cases hreview : p.reviewRequired with
    | true =>
      simp only [if_true]
      obtain hok | ⟨e, he, hundo⟩ := @exec_queueCrate env repo req fault
        { w with blocked := w.hidden true path, quota, crates := Function.update w.crates path (some req.crate) } p path
      · exact .inl hok
      · refine .inr ⟨e, he, fun h => (hundo h).trans ?_⟩
        simp [World.unblocked, World.hidden, hcrates]
    | false =>
      simp only [Bool.false_eq_true, if_false]
      obtain hok | ⟨e, he, hundo⟩ := @exec_exposeCrate env repo req fault
        { w with blocked := w.hidden false path, quota, crates := Function.update w.crates path (some req.crate) } hlib p
        ⟨hp.indexExisted, hp.lines⟩ path
      · exact .inl hok
      · refine .inr ⟨e, he, fun h => (hundo h).trans ?_⟩
        simp [World.unblocked, World.hidden, hcrates]

theorem exec_storePublication (hlib : env.lib.Lawful env.text) {p : Prepared} (hp : Prepared.Of env repo req w p) :
    ((storePublication env repo req p).exec fault w).1 = .ok () ∨
    (∃ e, ((storePublication env repo req p).exec fault w).1 = .error e ∧
      (((storePublication env repo req p).exec fault w).2.failures = w.failures →
        ∃ quota, ((storePublication env repo req p).exec fault w).2 =
            { w with quota, blocked := w.unblocked p.reviewRequired (cratePath repo req.name req.version) } ∧
          (quota.usage = w.quota.usage ↔ ¬ Charged env req fault p.teamPrefix w.quota))) := by
  unfold storePublication
  dsimp only
  generalize hpath : cratePath repo req.name req.version = path
  rw [Proc.bind_eq, Proc.exec_bind, exec_hide]
  simp only [Proc.bind_eq]
  rw [Proc.exec_bind]
  obtain ⟨hcharged, quota, husage, hexec⟩ | ⟨hcharged, quota, husage, hexec⟩ | ⟨hcharged, e, quota, husage,
      hexec⟩ :=
    @exec_takeQuota env req fault { w with blocked := w.hidden p.reviewRequired path } p path
  · rw [hexec]
    rcases @exec_storeCrate _ _ _ fault _ hlib _ hp quota _ hpath.symm _ rfl with hok | ⟨e, he, hundo⟩
    · exact .inl hok
    · exact .inr ⟨e, he, fun h => ⟨quota, hundo h, iff_of_false husage (not_not_intro hcharged)⟩⟩
  · rw [hexec]
    rcases @exec_storeCrate _ _ _ fault _ hlib _ hp quota _ hpath.symm _ rfl with hok | ⟨e, he, hundo⟩
    · exact .inl hok
    · exact .inr ⟨e, he, fun h => ⟨quota, hundo h, iff_of_true husage hcharged⟩⟩
  · rw [hexec]
    refine .inr ⟨e, rfl, fun _ => ⟨quota, ?_, iff_of_true husage hcharged⟩⟩
    have hblocked := unblocked_hidden w w.quota p.reviewRequired path
    show ({ w with blocked := _, quota } : World) = _
    rw [hblocked]

variable (env repo req fault w) in
/-- The request passed the checks and a reservation was committed for it. -/
def Billed : Prop :=
  ∃ p, ((preparePublication env repo req).exec fault w).1 = .ok p ∧ Charged env req fault p.teamPrefix w.quota

end Undo

/-! ### Requests on fixed inputs -/

/-- No account, no team and no lock. -/
def nobody : Review.Access where
  existingAccount _ := none
  userID _ := none
  session _ _ := none
  live _ := true
  user _ := none
  assignee _ _ := .ok ()
  superTeamLock _ := .ok ()
  superTeamMutable _ := .ok ()
  superTeamRole _ _ := none
  permission _ _ := .error .permissionDenied
  lockDomain _ := .ok ()
  resourceMutable _ := .ok ()
  deprecated _ _ := false
  artifactLocked _ _ := false

/-- A registry with or without a quota. -/
def plainEnv (quotaDefaults : Option Quota.Limits) : Env where
  text := ⟨id, id, fun _ => true, fun _ => ""⟩
  lib := plainLib
  marshal p := p.package.name
  unmarshal _ := none
  snapshots := ⟨fun _ => "", fun _ => none⟩
  quotaText := ⟨id, id, some⟩
  quotaDefaults := quotaDefaults
  access := nobody

def emptyWorld : World where
  db := DB.initial .empty (fun _ => false) (fun _ _ => none) fun _ _ => none
  reviews := ⟨.empty, .empty, .empty, .empty⟩
  quota := ⟨fun _ => some ⟨"u1", false⟩, fun _ => true, fun _ => none, fun _ _ => none, []⟩
  index _ := none
  crates _ := none
  blocked _ := false
  deprecated _ := false
  failures := 0

def openRepo : Repo := ⟨"crates", .off, false⟩

def serdeRequest : PublishRequest where
  user := ⟨"alice", false⟩
  name := "serde"
  version := "1.0.0"
  description := ""
  metadataValid := true
  details := ""
  crate := "serde-1.0.0"
  crateLength := 11
  checksum := "c0ffee"
  manifest := some ⟨"", "", "", "", "", ""⟩
  diskSpace := true
  mayCreate := true
  mayUpdate := true
  captcha := true
  upstream := none
  now := 1
  expiresAt := 2
  reviewID := "r1"
  quotaID := "q1"
  userID := "u1"

/-- Only one call fails. -/
def failing (call : StoreCall) : Step → Bool := fun s => s = ⟨call, false⟩

def lifetimeQuota : Quota.Limits := ⟨⟨10, 1000, 10⟩, some .lifetime⟩

end Renop.Cargo
