import Renop.CargoManage
import Renop.CargoPublish

/-!
# What the requests write

One rule for each request: which calls of it may change the catalog, the review tables and the index, in which
order, and what is left when a call fails. The quota, the archives and the blocked paths are left out.
-/

namespace Renop.Cargo

open Sql Interleave

section Writes
variable {env : Env} {repo : Repo} {req : PublishRequest} {w : World} {allowed : Step → Bool → Prop}

/-- The catalog, the reviews and the index are as before. -/
structure Untouched (w w' : World) : Prop where
  db : w'.db = w.db
  reviews : w'.reviews = w.reviews
  index : w'.index = w.index

theorem Untouched.refl (w : World) : Untouched w w := ⟨rfl, rfl, rfl⟩

theorem Untouched.trans {w₁ w₂ w₃ : World} (h : Untouched w₁ w₂) (h' : Untouched w₂ w₃) : Untouched w₁ w₃ :=
  ⟨h'.db.trans h.db, h'.reviews.trans h.reviews, h'.index.trans h.index⟩

theorem createReview_congr {w₁ w₂ : World} (hdb : w₂.db = w₁.db) (hreviews : w₂.reviews = w₁.reviews)
    (p : Publication) (publishedVersions : Bool) :
    createReview env repo req p publishedVersions w₂ = createReview env repo req p publishedVersions w₁ := by
  unfold createReview World.access
  rw [hdb, hreviews]

/-! ### Clean-ups -/

theorem wp_cleanUp {p : Request Unit} {Q : Except ServiceError Unit → World → Prop}
    (h : p.wp allowed (fun r w' => match r with
      | .ok () => Q (.ok ()) w'
      | .error _ => Q (.ok ()) { w' with failures := w'.failures + 1 }) w) : (cleanUp p).wp allowed Q w := by
  unfold cleanUp
  refine Proc.wp_attempt_bind (Proc.wp_mono (fun r w' hr => ?_) h)
  cases r with
  | ok _ => exact hr
  | error e => exact Proc.wp_modify hr

theorem wp_cleanUp_deleteCrate {undo : Bool} {path : String} {Q : Except ServiceError Unit → World → Prop}
    (hQ : ∀ w', Untouched w w' → Q (.ok ()) w') : (cleanUp (deleteCrate undo path)).wp allowed Q w := by
  refine wp_cleanUp (wp_deleteCrate (fun _ => ?_) ?_)
  · exact hQ _ ⟨rfl, rfl, rfl⟩
  · exact hQ _ ⟨rfl, rfl, rfl⟩

theorem wp_unhide {reviewRequired : Bool} {path : String} {Q : Except ServiceError Unit → World → Prop}
    (hQ : ∀ w', Untouched w w' → Q (.ok ()) w') : (unhide reviewRequired path).wp allowed Q w := by
  unfold unhide
  cases reviewRequired with
  | false => exact hQ w (.refl w)
  | true => exact Proc.wp_modify (hQ _ ⟨rfl, rfl, rfl⟩)

theorem wp_hide {reviewRequired : Bool} {path : String} {Q : Except ServiceError Unit → World → Prop}
    (hQ : ∀ w', Untouched w w' → Q (.ok ()) w') : (hide reviewRequired path).wp allowed Q w := by
  unfold hide
  cases reviewRequired with
  | false => exact hQ w (.refl w)
  | true => exact Proc.wp_modify (hQ _ ⟨rfl, rfl, rfl⟩)

/-! ### Publishing -/

theorem wp_takeQuota {p : Prepared} {path : String} {Q : Except ServiceError Unit → World → Prop}
    (hQ : ∀ r w', Untouched w w' → Q r w') : (takeQuota env req p path).wp allowed Q w := by
  have hrefuse : ∀ (e : ServiceError) (rest : Request Unit) (w₁ : World), Untouched w w₁ →
      (∀ w₂, Untouched w₁ w₂ → rest.wp allowed Q w₂) →
      Proc.wp allowed ((unhide p.reviewRequired path).bind fun _ => rest) Q w₁ := by
    intro e rest w₁ h₁ hrest
    rw [Proc.wp_bind]
    exact wp_unhide fun w₂ h₂ => hrest w₂ h₂
  unfold takeQuota
  refine Proc.wp_attempt_bind ?_
  unfold reserveQuota
  refine Proc.wp_call (fun _ => ?_) (fun reservation w₁ h => ?_) fun e _ => ?_
  · exact hrefuse (.quota .database) _ w (.refl w) fun w₂ h₂ => hQ _ w₂ h₂
  · -- the reservation has changed the quota only
    have h₁ : Untouched w w₁ := by
      obtain ⟨⟨id, quota⟩, -, hw⟩ := map_ok.1 h
      cases hw
      exact ⟨rfl, rfl, rfl⟩
    refine Proc.wp_attempt_bind ?_
    have hrelease : ∀ w₂, Untouched w₁ w₂ → Proc.wp allowed ((releaseQuota env reservation).bind fun _ =>
        (Proc.throw (.status 503 "Cargo publication quota is unavailable") : Request Unit)) Q w₂ := by
      intro w₂ h₂
      cases reservation with
      | none => exact hQ _ w₂ (h₁.trans h₂)
      | some id =>
        rw [Proc.wp_bind]
        unfold releaseQuota
        refine Proc.wp_attempt_bind (Proc.wp_tell (fun _ => ?_) (fun w₃ h₃ => ?_) fun e _ => ?_)
        · exact hQ _ w₂ (h₁.trans h₂)
        · cases h₃
          exact hQ _ _ (h₁.trans (h₂.trans ⟨rfl, rfl, rfl⟩))
        · exact hQ _ w₂ (h₁.trans h₂)
    cases reservation with
    | none => exact hQ _ w₁ h₁
    | some id =>
      refine Proc.wp_tell (fun _ => ?_) (fun w₂ h₂ => ?_) fun e _ => ?_
      · exact hrefuse (.quota .database) _ w₁ h₁ hrelease
      · obtain ⟨quota, -, hw⟩ := map_ok.1 h₂
        cases hw
        exact hQ _ _ (h₁.trans ⟨rfl, rfl, rfl⟩)
      · exact hrefuse e _ w₁ h₁ hrelease
  · exact hrefuse e _ w (.refl w) fun w₂ h₂ => hQ _ w₂ h₂

theorem wp_queueCrate {p : Prepared} {path : String} {Q : Except ServiceError Unit → World → Prop}
    (hkeep : ∀ r w', Untouched w w' → Q r w')
    (hqueue : ∀ result w', createReview env repo req p.publication p.publishedVersions w = .ok (w'.reviews, result) →
      w'.db = w.db → w'.index = w.index → Q (.ok ()) w') : (queueCrate env repo req p path).wp allowed Q w := by
  have habandon : (abandonReview path).wp allowed Q w := by
    unfold abandonReview
    rw [Proc.bind_eq, Proc.wp_bind]
    refine wp_cleanUp_deleteCrate fun w₁ h₁ => ?_
    exact Proc.wp_modify_bind (hkeep _ _ (h₁.trans ⟨rfl, rfl, rfl⟩))
  unfold queueCrate queuePublicationReview
  refine Proc.wp_attempt_bind (Proc.wp_call (fun _ => habandon) (fun result w₁ h => ?_) fun e _ => habandon)
  obtain ⟨⟨reviews, result'⟩, hcreate, hw⟩ := map_ok.1 (mapError_ok.1 h)
  simp only [Prod.mk.injEq] at hw
  obtain ⟨rfl, rfl⟩ := hw
  obtain ⟨pending, id⟩ := result'
  cases pending with
  | true => exact hqueue _ _ hcreate rfl rfl
  | false =>
    cases createReview_not_pending hcreate
    exact habandon

theorem wp_exposeCrate {p : Prepared} {path : String} {Q : Except ServiceError Unit → World → Prop}
    (hkeep : ∀ r w', Untouched w w' → Q r w')
    (hrecord : ∀ w', recordCargoPublication env.text w.db p.publication.package p.publication.version
        p.publication.version.publisher req.userID = .ok w'.db → w'.reviews = w.reviews →
      w'.index = Function.update w.index (cargoIndexPath repo req.name) (some p.lines) → Q (.ok ()) w')
    (hundo : Proc.wp allowed
      (cleanUp (rollbackPublication env (cargoIndexPath repo req.name) path req.version p.indexExisted))
      (fun _ w' => ∀ e, Q (.error e) w')
      { w with index := Function.update w.index (cargoIndexPath repo req.name) (some p.lines) }) :
    (exposeCrate env repo req p path).wp allowed Q w := by
  have hclean : ∀ e : ServiceError, Proc.wp allowed
      ((cleanUp (rollbackPublication env (cargoIndexPath repo req.name) path req.version p.indexExisted)).bind fun _ =>
        (Proc.throw e : Request Unit)) Q
      { w with index := Function.update w.index (cargoIndexPath repo req.name) (some p.lines) } := by
    intro e
    rw [Proc.wp_bind]
    refine Proc.wp_mono (fun r w' h => ?_) hundo
    cases r with
    | ok _ => exact h e
    | error e' => exact h e'
  unfold exposeCrate
  refine Proc.wp_attempt_bind (wp_commitIndex (fun _ => ?_) ?_)
  · rw [Proc.bind_eq, Proc.wp_bind]
    exact wp_cleanUp_deleteCrate fun w₁ h₁ => hkeep _ _ h₁
  · refine Proc.wp_attempt_bind (Proc.wp_tell (fun _ => hclean _) (fun w₁ h₁ => ?_) fun e _ => hclean e)
    obtain ⟨db, hdb, hw⟩ := map_ok.1 (mapError_ok.1 h₁)
    subst hw
    exact hrecord _ hdb rfl rfl

/-- What a publication that passed the checks leaves behind. -/
theorem wp_storePublication {p : Prepared} {Q : Except ServiceError Unit → World → Prop}
    (hkeep : ∀ r w', Untouched w w' → Q r w') (hqueue : p.reviewRequired = true → ∀ result w',
      createReview env repo req p.publication p.publishedVersions w = .ok (w'.reviews, result) →
      w'.db = w.db → w'.index = w.index → Q (.ok ()) w')
    (hrecord : p.reviewRequired = false → ∀ w', recordCargoPublication env.text w.db p.publication.package
        p.publication.version p.publication.version.publisher req.userID = .ok w'.db → w'.reviews = w.reviews →
      w'.index = Function.update w.index (cargoIndexPath repo req.name) (some p.lines) → Q (.ok ()) w')
    (hundo : p.reviewRequired = false → ∀ w₁ path, w₁.db = w.db → w₁.reviews = w.reviews →
      w₁.index = Function.update w.index (cargoIndexPath repo req.name) (some p.lines) → Proc.wp allowed
      (cleanUp (rollbackPublication env (cargoIndexPath repo req.name) path req.version p.indexExisted))
      (fun _ w' => ∀ e, Q (.error e) w') w₁) :
    (storePublication env repo req p).wp allowed Q w := by
  unfold storePublication
  generalize cratePath repo req.name req.version = path
  rw [Proc.bind_eq, Proc.wp_bind]
  refine wp_hide fun w₁ h₁ => ?_
  rw [Proc.bind_eq, Proc.wp_bind]
  refine wp_takeQuota fun r w₂ h₂ => ?_
  cases r with
  | error e => exact hkeep _ _ (h₁.trans h₂)
  | ok _ =>
    unfold storeCrate commitCrate
    refine Proc.wp_attempt_bind (Proc.wp_tell (fun _ => ?_) (fun w₃ h₃ => ?_) fun e h => by cases h)
    · rw [Proc.bind_eq, Proc.wp_bind]
      exact wp_unhide fun w₃ h₃ => hkeep _ _ (h₁.trans (h₂.trans h₃))
    · have h₃ : Untouched w w₃ := by
        cases h₃
        exact h₁.trans (h₂.trans ⟨rfl, rfl, rfl⟩)
      cases hreview : p.reviewRequired with
      | true =>
        simp only [if_true]
        refine wp_queueCrate (fun r w' h => hkeep r w' (h₃.trans h)) fun result w' hcreate hdb hindex => ?_
        refine hqueue hreview result w' ?_ (hdb.trans h₃.db) (hindex.trans h₃.index)
        rw [← createReview_congr h₃.db h₃.reviews]
        exact hcreate
      | false =>
        simp only [Bool.false_eq_true, if_false]
        refine wp_exposeCrate (fun r w' h => hkeep r w' (h₃.trans h)) (fun w' hdb hreviews hindex => ?_) ?_
        · exact hrecord hreview w' (h₃.db ▸ hdb) (hreviews.trans h₃.reviews) (h₃.index ▸ hindex)
        · exact hundo hreview _ path h₃.db h₃.reviews (congrArg (Function.update · _ _) h₃.index)

theorem wp_publish {Q : Except ServiceError Unit → World → Prop} (herror : ∀ e, Q (.error e) w)
    (hok : ∀ p, Prepared.Of env repo req w p → (storePublication env repo req p).wp allowed Q w) :
    (publish env repo req).wp allowed Q w := by
  unfold publish
  rw [Proc.bind_eq, Proc.wp_bind]
  exact wp_preparePublication herror hok

/-! ### Rolling back -/

theorem wp_rollbackCargoIndexVersion_tables {path version : String} {indexExisted : Bool}
    {Q : Except ServiceError Unit → World → Prop} (hQ : ∀ r w', w'.db = w.db → w'.reviews = w.reviews → Q r w') :
    (rollbackCargoIndexVersion env path version indexExisted).wp allowed Q w := by
  unfold rollbackCargoIndexVersion
  cases indexExisted with
  | false => exact wp_deleteIndex (fun _ => hQ _ _ rfl rfl) (hQ _ _ rfl rfl)
  | true =>
    simp only [Bool.not_true, Bool.false_eq_true, if_false, Proc.bind_eq]
    refine Proc.wp_ask_bind (fun e => hQ _ _ rfl rfl) fun file _ => ?_
    refine Proc.wp_ofExcept_bind (fun e _ => hQ _ _ rfl rfl) fun lines _ => ?_
    refine Proc.wp_ask_bind (fun e => hQ _ _ rfl rfl) fun _ _ => ?_
    refine Proc.wp_ofExcept_bind (fun e _ => hQ _ _ rfl rfl) fun x _ => ?_
    refine Proc.wp_ofExcept_bind (fun e _ => hQ _ _ rfl rfl) fun _ _ => ?_
    exact wp_commitIndex (fun _ => hQ _ _ rfl rfl) (hQ _ _ rfl rfl)

theorem wp_rollbackPublication_tables {path cratePath version : String} {indexExisted : Bool}
    {Q : Except ServiceError Unit → World → Prop} (hQ : ∀ r w', w'.db = w.db → w'.reviews = w.reviews → Q r w') :
    (cleanUp (rollbackPublication env path cratePath version indexExisted)).wp allowed Q w := by
  have htables : (rollbackPublication env path cratePath version indexExisted).wp allowed
      (fun _ w' => w'.db = w.db ∧ w'.reviews = w.reviews) w := by
    have hindex : ∀ (deleted : Except ServiceError Unit) (w₁ : World), w₁.db = w.db → w₁.reviews = w.reviews →
        Proc.wp allowed ((rollbackCargoIndexVersion env path version indexExisted).bind fun _ => Proc.ofExcept deleted)
          (fun _ w' => w'.db = w.db ∧ w'.reviews = w.reviews) w₁ := by
      intro deleted w₁ hdb hreviews
      rw [Proc.wp_bind]
      refine wp_rollbackCargoIndexVersion_tables fun r w' hdb' hreviews' => ?_
      have h := And.intro (hdb'.trans hdb) (hreviews'.trans hreviews)
      cases r with
      | ok _ => exact h
      | error e => exact h
    unfold rollbackPublication
    refine Proc.wp_attempt_bind (wp_deleteCrate (fun _ => hindex _ w rfl rfl) (hindex _ _ rfl rfl))
  refine wp_cleanUp (Proc.wp_mono (fun r w' h => ?_) htables)
  cases r with
  | ok _ => exact hQ _ _ h.1 h.2
  | error e => exact hQ _ _ h.1 h.2

/-! ### Decisions -/

variable {task : Review.ReviewTask} {d : Decision}

/-- What is known when a publication is approved in this state. -/
structure Approval (env : Env) (repo : Repo) (w : World) (task : Review.ReviewTask) (p : Publication) (out : List String) :
    Prop where
  payload : cargoReviewPayload env w.reviews task = .ok p
  repository : task.repository = repo.name
  rewritten : rewriteIndex env.text env.lib ((w.index (cargoIndexPath repo p.package.name)).getD []) p.entry = .ok out

theorem wp_approvePublicationReview {userID : String} {Q : Except ServiceError Approved → World → Prop}
    (hkeep : ∀ e, Q (.error e) w) (hrecord : ∀ p out w', Approval env repo w task p out →
      recordCargoPublication env.text w.db p.package p.version p.version.publisher userID = .ok w'.db →
        w'.reviews = w.reviews → w'.index = Function.update w.index (cargoIndexPath repo p.package.name) (some out) →
      Q (.ok ⟨p, w.package? env task.repository task.resourceKey, (w.index (cargoIndexPath repo p.package.name)).isSome⟩)
        w') (hundo : ∀ p out, Approval env repo w task p out → Proc.wp allowed
      (rollbackCargoIndexVersion env (cargoIndexPath repo p.package.name) task.resourceVersion
        (w.index (cargoIndexPath repo p.package.name)).isSome) (fun _ w' => ∀ e, Q (.error e) w')
      { w with index := Function.update w.index (cargoIndexPath repo p.package.name) (some out) }) :
    (approvePublicationReview env repo task userID).wp allowed Q w := by
  unfold approvePublicationReview
  simp only [Proc.bind_eq]
  refine Proc.wp_ask_bind hkeep fun p hp => ?_
  refine Proc.wp_ofExcept_bind (fun e _ => hkeep e) fun _ hrepo => ?_
  refine Proc.wp_ask_bind hkeep fun previous hprevious => ?_
  cases hprevious
  refine Proc.wp_ask_bind hkeep fun _ _ => ?_
  refine Proc.wp_ask_bind hkeep fun lines hlines => ?_
  cases hlines
  refine Proc.wp_ask_bind hkeep fun _ _ => ?_
  refine Proc.wp_ofExcept_bind (fun e _ => hkeep e) fun out hout => ?_
  have ha : Approval env repo w task p out := ⟨hp, require_ok.1 hrepo, mapError_ok.1 hout⟩
  rw [Proc.wp_bind]
  refine wp_commitIndex (fun _ => hkeep _) ?_
  have hfailed : ∀ e : ServiceError, Proc.wp allowed ((rollbackCargoIndexVersion env (cargoIndexPath repo p.package.name)
      task.resourceVersion (w.index (cargoIndexPath repo p.package.name)).isSome).attempt.bind fun _ =>
        (Proc.throw e : Request Approved)) Q
      { w with index := Function.update w.index (cargoIndexPath repo p.package.name) (some out) } :=
    fun e => Proc.wp_attempt_bind (Proc.wp_mono (fun r w' h => h e) (hundo p out ha))
  refine Proc.wp_attempt_bind (Proc.wp_tell (fun _ => hfailed _) (fun w' h => ?_) fun e _ => hfailed e)
  obtain ⟨db, hdb, hw⟩ := map_ok.1 (mapError_ok.1 h)
  subst hw
  exact hrecord p out _ ha hdb rfl rfl

theorem wp_decideReview {decision : Review.ReviewStatus} {reason : String} {Q : Except ServiceError Unit → World → Prop}
    (herror : ∀ e, Q (.error e) w)
    (hok : ∀ reviews status error, Review.decideReviewTask env.text env.snapshots env.access w.reviews task.id d.actor
      decision reason d.now = .ok (reviews, status, error) → Q (.ok ()) { w with reviews }) :
    (decideReview env task d decision reason).wp allowed Q w := by
  unfold decideReview
  refine Proc.wp_tell (fun _ => herror _) (fun w' h => ?_) fun e _ => herror e
  obtain ⟨⟨reviews, status, error⟩, hdecided, hw⟩ := map_ok.1 (mapError_ok.1 h)
  subst hw
  exact hok reviews status error hdecided

theorem wp_unblockReviewFiles {repository : String} {files : List Review.ReviewFile}
    {Q : Except ServiceError Unit → World → Prop}
    (hQ : ∀ r w', Untouched w w' → Q r w') : (unblockReviewFiles repository files).wp allowed Q w := by
  induction files generalizing w with
  | nil => exact hQ _ w (.refl w)
  | cons f fs ih =>
    unfold unblockReviewFiles
    simp only [Proc.bind_eq]
    refine Proc.wp_ask_bind (fun e => hQ _ w (.refl w)) fun pending _ => ?_
    cases pending with
    | true => exact ih hQ
    | false => exact Proc.wp_modify_bind (ih fun r w' h => hQ r w' ⟨h.db, h.reviews, h.index⟩)

theorem wp_deleteReviewFiles {repository : String} {files : List Review.ReviewFile}
    {Q : Except ServiceError Unit → World → Prop}
    (hQ : ∀ r w', Untouched w w' → Q r w') : (deleteReviewFiles repository files).wp allowed Q w := by
  induction files generalizing w Q with
  | nil => exact hQ _ w (.refl w)
  | cons f fs ih =>
    have hrest : ∀ (deleted : Except ServiceError Unit) (w₁ : World), Untouched w w₁ →
        Proc.wp allowed ((deleteReviewFiles repository fs).bind fun _ => Proc.ofExcept deleted) Q w₁ := by
      intro deleted w₁ h₁
      rw [Proc.wp_bind]
      refine ih fun r w' h => ?_
      cases r with
      | ok _ => exact hQ _ w' (h₁.trans h)
      | error e => exact hQ _ w' (h₁.trans h)
    unfold deleteReviewFiles
    refine Proc.wp_attempt_bind (wp_deleteCrate (fun _ => hrest _ w (.refl w)) ?_)
    exact Proc.wp_modify_bind (hrest _ _ ⟨rfl, rfl, rfl⟩)

/-- A decision reads its task once. -/
theorem wp_decidePublicationTask {Q : Except ServiceError Unit → World → Prop} (hkeep : ∀ r w', Untouched w w' → Q r w')
    (hreject : ∀ task files reviews status error w', readPendingTask env w.reviews d = .ok (task, files) →
      Review.decideReviewTask env.text env.snapshots env.access w.reviews task.id d.actor .rejected d.reason d.now =
        .ok (reviews, status, error) → w'.reviews = reviews → w'.db = w.db → w'.index = w.index → Q (.ok ()) w')
    (happrove : ∀ task files p out w₁, readPendingTask env w.reviews d = .ok (task, files) →
      Approval env repo w task p out →
      recordCargoPublication env.text w.db p.package p.version p.version.publisher d.userID = .ok w₁.db →
        w₁.reviews = w.reviews → w₁.index = Function.update w.index (cargoIndexPath repo p.package.name) (some out) →
      (∀ r reviews status error w', Review.decideReviewTask env.text env.snapshots env.access w.reviews task.id d.actor
        .approved "" d.now = .ok (reviews, status, error) → w'.reviews = reviews → w'.db = w₁.db → w'.index = w₁.index →
          Q r w') ∧
      Proc.wp allowed (rollbackApproval env repo task ⟨p, w.package? env task.repository task.resourceKey,
        (w.index (cargoIndexPath repo p.package.name)).isSome⟩) (fun _ w' => ∀ e, Q (.error e) w') w₁)
    (hundo : ∀ task files p out, readPendingTask env w.reviews d = .ok (task, files) → Approval env repo w task p out →
      Proc.wp allowed (rollbackCargoIndexVersion env (cargoIndexPath repo p.package.name) task.resourceVersion
        (w.index (cargoIndexPath repo p.package.name)).isSome) (fun _ w' => ∀ e, Q (.error e) w')
      { w with index := Function.update w.index (cargoIndexPath repo p.package.name) (some out) }) :
    (decidePublicationTask env repo d).wp allowed Q w := by
  unfold decidePublicationTask
  simp only [Proc.bind_eq]
  refine Proc.wp_ask_bind (fun e => hkeep _ w (.refl w)) fun x hread => ?_
  obtain ⟨task, files⟩ := x
  dsimp only
  split
  · rw [Proc.wp_bind]
    refine wp_approvePublicationReview (fun e => hkeep _ w (.refl w)) (fun p out w₁ ha hdb hreviews hindex => ?_)
      fun p out ha =>
      hundo task files p out hread ha
    obtain ⟨hdecided, hrollback⟩ := happrove task files p out w₁ hread ha hdb hreviews hindex
    have hfailed : ∀ e : ServiceError, Proc.wp allowed ((rollbackApproval env repo task ⟨p, w.package? env task.repository
        task.resourceKey, (w.index (cargoIndexPath repo p.package.name)).isSome⟩).attempt.bind fun _ =>
          (Proc.throw e : Request Unit)) Q w₁ :=
      fun e => Proc.wp_attempt_bind (Proc.wp_mono (fun r w' h => h e) hrollback)
    refine Proc.wp_attempt_bind (wp_decideReview (fun e => hfailed e) fun reviews status error hok => ?_)
    refine wp_unblockReviewFiles fun r w' h => ?_
    exact hdecided r reviews status error w' (hreviews ▸ hok) h.reviews h.db h.index
  · rw [Proc.wp_bind]
    refine wp_deleteReviewFiles fun r w₁ h₁ => ?_
    cases r with
    | error e => exact hkeep _ w₁ h₁
    | ok _ =>
      refine wp_decideReview (fun e => hkeep _ w₁ h₁) fun reviews status error hok => ?_
      exact hreject task files reviews status error _ hread (h₁.reviews ▸ hok) rfl h₁.db h₁.index

end Writes

end Renop.Cargo
