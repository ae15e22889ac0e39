import Renop.Review

/-!
# Review tasks as a state machine

`Inv` holds in every state that the calls reach from tables without reviews, whatever the other tables say
and however packages and domains change in between (`run_inv`). A call either adds a pending task, attaches
files to one, or completes a pending task; each of the three keeps the invariant, and none touches a task
that is no longer pending. A decision writes one resource row at most, and that only if the task ends
approved (`decideReviewTask_effect`).
-/

namespace Renop.Review

open Sql Cargo

/-! ### The invariant -/

structure Inv (db : ReviewDB) : Prop where
  active_iff : ∀ t ∈ db.tasks.rows, t.activeKey.isSome = true ↔ t.status = .pending
  active_unique : ∀ t ∈ db.tasks.rows, ∀ u ∈ db.tasks.rows, t.status = .pending → u.status = .pending →
    t.activeKey = u.activeKey → t = u
  publication_key : ∀ t ∈ db.tasks.rows, t.kind = .publication → t.status = .pending →
    t.activeKey = some (.publication t.resourceType t.repository t.resourceKey t.resourceVersion)
  key_publication : ∀ t ∈ db.tasks.rows, ∀ type repository key version,
    t.activeKey = some (.publication type repository key version) → t.kind = .publication
  restore_type : ∀ t ∈ db.tasks.rows, t.kind = .mavenRestore → t.resourceType = .mavenArtifact
  file_task : ∀ f ∈ db.files.rows, ∃ t ∈ db.tasks.rows, t.id = f.taskID
  /-- A file is in one pending publication of a repository at most. -/
  file_unique : ∀ f ∈ db.files.rows, ∀ g ∈ db.files.rows, f.path = g.path →
    ∀ t ∈ db.tasks.rows, ∀ u ∈ db.tasks.rows, t.id = f.taskID → u.id = g.taskID →
      t.kind = .publication → u.kind = .publication → t.status = .pending → u.status = .pending →
      t.repository = u.repository → f = g
  file_count : ∀ id, (db.files.rows.filter fun f => f.taskID = id).length ≤ maxPublicationReviewFiles

/-- No reviews yet. -/
def noReviews (resources : Table Resource.rowKey) : ReviewDB := ⟨.empty, .empty, .empty, resources⟩

theorem noReviews_inv (resources : Table Resource.rowKey) : Inv (noReviews resources) where
  active_iff := by simp [noReviews]
  active_unique := by simp [noReviews]
  publication_key := by simp [noReviews]
  key_publication := by simp [noReviews]
  restore_type := by simp [noReviews]
  file_task := by simp [noReviews]
  file_unique := by simp [noReviews]
  file_count := by simp [noReviews]

theorem Inv.congr {db db' : ReviewDB} (h : Inv db) (htasks : db'.tasks = db.tasks) (hfiles : db'.files = db.files) :
    Inv db' where
  active_iff := by rw [htasks]; exact h.active_iff
  active_unique := by rw [htasks]; exact h.active_unique
  publication_key := by rw [htasks]; exact h.publication_key
  key_publication := by rw [htasks]; exact h.key_publication
  restore_type := by rw [htasks]; exact h.restore_type
  file_task := by rw [htasks, hfiles]; exact h.file_task
  file_unique := by rw [htasks, hfiles]; exact h.file_unique
  file_count := by rw [hfiles]; exact h.file_count

/-! ### A new task -/

theorem insertTask_ok {db db' : ReviewDB} {task : ReviewTask} (h : insertTask db task = .ok db') :
    (∀ t ∈ db.tasks.rows, t.activeKey ≠ task.activeKey) ∧ (∀ t ∈ db.tasks.rows, t.id ≠ task.id) ∧
      db'.tasks.rows = db.tasks.rows ++ [task] ∧ db'.files = db.files ∧ db'.resources = db.resources := by
  unfold insertTask at h
  obtain ⟨hkey, h⟩ := require_bind_ok.1 h
  obtain ⟨tasks, htasks, h⟩ := bind_ok.1 h
  cases h
  obtain ⟨hid, hrows⟩ := Table.insert_ok htasks
  exact ⟨hkey, hid, hrows, rfl, rfl⟩

theorem Inv.insertTask {db db' : ReviewDB} {task : ReviewTask} (hi : Inv db) (h : insertTask db task = .ok db')
    (hstatus : task.status = .pending) (hactive : task.activeKey.isSome = true) (hkey : task.kind = .publication →
      task.activeKey = some (.publication task.resourceType task.repository task.resourceKey task.resourceVersion))
    (hkind : ∀ type repository key version, task.activeKey = some (.publication type repository key version) →
      task.kind = .publication)
    (hrestore : task.kind = .mavenRestore → task.resourceType = .mavenArtifact) : Inv db' := by
  obtain ⟨hfresh, hid, hrows, hfiles, -⟩ := insertTask_ok h
  have hmem : ∀ t, t ∈ db'.tasks.rows ↔ t ∈ db.tasks.rows ∨ t = task := by
    intro t
    rw [hrows, List.mem_append, List.mem_singleton]
  constructor
  · intro t ht
    rcases (hmem t).1 ht with ht | rfl
    · exact hi.active_iff t ht
    · simp [hstatus, hactive]
  · intro t ht u hu htp hup he
    rcases (hmem t).1 ht with ht | rfl <;> rcases (hmem u).1 hu with hu | rfl
    · exact hi.active_unique t ht u hu htp hup he
    · exact absurd he (hfresh t ht)
    · exact absurd he.symm (hfresh u hu)
    · rfl
  · intro t ht
    rcases (hmem t).1 ht with ht | rfl
    · exact hi.publication_key t ht
    · exact fun hk _ => hkey hk
  · intro t ht
    rcases (hmem t).1 ht with ht | rfl
    · exact hi.key_publication t ht
    · exact hkind
  · intro t ht
    rcases (hmem t).1 ht with ht | rfl
    · exact hi.restore_type t ht
    · exact hrestore
  · intro f hf
    rw [hfiles] at hf
    obtain ⟨t, ht, he⟩ := hi.file_task f hf
    exact ⟨t, (hmem t).2 (.inl ht), he⟩
  · -- the new task has no files yet
    have hold : ∀ f ∈ db.files.rows, ∀ t ∈ db'.tasks.rows, t.id = f.taskID → t ∈ db.tasks.rows := by
      intro f hf t ht he
      rcases (hmem t).1 ht with ht | rfl
      · exact ht
      · obtain ⟨u, hu, hue⟩ := hi.file_task f hf
        exact absurd (hue.trans he.symm) (hid u hu)
    intro f hf g hg hpath t ht u hu hft hgu
    rw [hfiles] at hf hg
    exact hi.file_unique f hf g hg hpath t (hold f hf t ht hft) u (hold g hg u hu hgu) hft hgu
  · rw [hfiles]
    exact hi.file_count

/-! ### Files -/

section Files
variable {db db' : ReviewDB} {taskID repository : String} {file : ReviewFile}

/-- The file is attached to the task and to no other pending publication, and other files stay. -/
structure Saved (db db' : ReviewDB) (taskID repository path : String) : Prop where
  tasks : db'.tasks = db.tasks
  resources : db'.resources = db.resources
  old_or_new : ∀ f ∈ db'.files.rows, (f ∈ db.files.rows ∧
    ¬ (f.path = path ∧ elsewhere db taskID repository f = true) ∧ f.key ≠ (taskID, path)) ∨ f.key = (taskID, path)
  count : ∀ id, (db.files.rows.filter fun f => f.taskID = id).length ≤ maxPublicationReviewFiles →
    (db'.files.rows.filter fun f => f.taskID = id).length ≤ maxPublicationReviewFiles

theorem savePublicationReviewFile_ok (h : savePublicationReviewFile taskID repository db file = .ok db') :
    Saved db db' taskID repository file.path := by
  unfold savePublicationReviewFile at h
  dsimp only at h
  have hdeleted : ∀ id, ((db.files.delete fun f => f.path = file.path && elsewhere db taskID repository f).rows.filter
      fun f => f.taskID = id).length ≤ (db.files.rows.filter fun f => f.taskID = id).length := fun id =>
    (List.Sublist.filter _ List.filter_sublist).length_le
  have hkept : ∀ f, f ∈ (db.files.delete fun f => f.path = file.path && elsewhere db taskID repository f).rows ↔
      f ∈ db.files.rows ∧ ¬ (f.path = file.path ∧ elsewhere db taskID repository f = true) := by
    intro f
    rw [Table.rows_delete, List.mem_filter, Bool.not_eq_true', ← Bool.not_eq_true, Bool.and_eq_true, decide_eq_true_eq]
  split at h
  · cases h
    refine ⟨rfl, rfl, fun f hf => ?_, fun id hid => ?_⟩
    · simp only [Table.rows_update, List.mem_map] at hf
      obtain ⟨g, hg, rfl⟩ := hf
      by_cases hk : g.key = (taskID, file.path)
      · rw [if_pos hk]
        exact .inr hk
      · rw [if_neg hk]
        obtain ⟨hg, hne⟩ := (hkept g).1 hg
        exact .inl ⟨hg, hne, hk⟩
    · simp only [Table.rows_update]
      rw [List.filter_map, List.length_map]
      refine le_trans (le_of_eq ?_) (le_trans (hdeleted id) hid)
      congr 1
      refine List.filter_congr fun f _ => ?_
      simp only [Function.comp_apply]
      split <;> rfl
  · rename_i hnone
    obtain ⟨hcount, h⟩ := require_bind_ok.1 h
    obtain ⟨files, hfiles, h⟩ := bind_ok.1 h
    cases h
    obtain ⟨-, hrows⟩ := Table.insert_ok hfiles
    refine ⟨rfl, rfl, fun f hf => ?_, fun id hid => ?_⟩
    · simp only [hrows, List.mem_append, List.mem_singleton] at hf
      rcases hf with hf | rfl
      · obtain ⟨hold, hne⟩ := (hkept f).1 hf
        exact .inl ⟨hold, hne, Table.find?_eq_none.1 hnone f hf⟩
      · exact .inr rfl
    · simp only [hrows, List.filter_append, List.length_append]
      by_cases he : taskID = id
      · subst he
        simp only [List.filter_cons_of_pos, decide_true, List.filter_nil, List.length_singleton]
        exact hcount
      · simp only [he, decide_false, Bool.false_eq_true, not_false_eq_true, List.filter_cons_of_neg, List.filter_nil,
          List.length_nil, Nat.add_zero]
        exact (hdeleted id).trans hid

/-- The task that files are attached to. -/
structure Open (db : ReviewDB) (taskID repository : String) (t : ReviewTask) : Prop where
  row : t ∈ db.tasks.rows
  id : t.id = taskID
  kind : t.kind = .publication
  status : t.status = .pending
  repository : t.repository = repository

theorem Inv.saved {path : String} (hi : Inv db) (h : Saved db db' taskID repository path) {t : ReviewTask}
    (ht : Open db taskID repository t) : Inv db' := by
  have htasks := h.tasks
  constructor
  · rw [htasks]; exact hi.active_iff
  · rw [htasks]; exact hi.active_unique
  · rw [htasks]; exact hi.publication_key
  · rw [htasks]; exact hi.key_publication
  · rw [htasks]; exact hi.restore_type
  · intro f hf
    rw [htasks]
    rcases h.old_or_new f hf with ⟨hf, -⟩ | hf
    · exact hi.file_task f hf
    · have := congrArg Prod.fst hf
      exact ⟨t, ht.row, ht.id.trans this.symm⟩
  · -- an old file with the path of the new one is in no pending publication of the repository
    have hnot : ∀ f ∈ db.files.rows, ¬ (f.path = path ∧ elsewhere db taskID repository f = true) →
      f.key ≠ (taskID, path) →
        f.path = path → ∀ u ∈ db.tasks.rows, u.id = f.taskID → u.kind = .publication → u.status = .pending →
        u.repository ≠ repository := by
      intro f hf hne hk hpath u hu hid hkind hstatus hrepository
      refine hne ⟨hpath, ?_⟩
      have htask : f.taskID ≠ taskID := fun he => hk (by rw [ReviewFile.key, he, hpath])
      unfold elsewhere
      simp only [Bool.and_eq_true, List.any_eq_true, decide_eq_true_eq, ne_eq, decide_not, Bool.not_eq_true',
        decide_eq_false_iff_not]
      exact ⟨htask, u, hu, ⟨⟨⟨hid, hkind⟩, hstatus⟩, hrepository⟩⟩
    have hself : ∀ u ∈ db.tasks.rows, u.id = taskID → u = t := fun u hu hid =>
      db.tasks.eq_of_key hu ht.row (hid.trans ht.id.symm)
    intro f hf g hg hpath u hu v hv hfu hgv hku hkv hsu hsv hr
    rw [htasks] at hu hv
    rcases h.old_or_new f hf with ⟨hfo, hfn, hfk⟩ | hfnew <;> rcases h.old_or_new g hg with ⟨hgo, hgn, hgk⟩ | hgnew
    · exact hi.file_unique f hfo g hgo hpath u hu v hv hfu hgv hku hkv hsu hsv hr
    · obtain rfl := hself v hv (hgv.trans (congrArg Prod.fst hgnew))
      exact absurd (hr.trans ht.repository) (hnot f hfo hfn hfk (hpath.trans (congrArg Prod.snd hgnew)) u hu hfu hku hsu)
    · obtain rfl := hself u hu (hfu.trans (congrArg Prod.fst hfnew))
      exact absurd (hr.symm.trans ht.repository)
        (hnot g hgo hgn hgk (hpath.symm.trans (congrArg Prod.snd hfnew)) v hv hgv hkv hsv)
    · exact db'.files.eq_of_key hf hg (hfnew.trans hgnew.symm)
  · exact fun id => h.count id (hi.file_count id)

theorem Inv.saveFiles {files : List ReviewFile} {t : ReviewTask} (hi : Inv db) (ht : Open db taskID repository t)
    (h : files.foldlM (savePublicationReviewFile taskID repository) db = .ok db') :
    Inv db' ∧ db'.tasks = db.tasks ∧ db'.resources = db.resources := by
  induction files generalizing db with
  | nil =>
    cases h
    exact ⟨hi, rfl, rfl⟩
  | cons f files ih =>
    rw [List.foldlM_cons] at h
    obtain ⟨db₁, hf, h⟩ := bind_ok.1 h
    have hsaved := savePublicationReviewFile_ok hf
    have ht₁ : Open db₁ taskID repository t := ⟨hsaved.tasks ▸ ht.row, ht.id, ht.kind, ht.status, ht.repository⟩
    obtain ⟨hi', htasks, hresources⟩ := ih (hi.saved hsaved ht) ht₁ h
    exact ⟨hi', htasks.trans hsaved.tasks, hresources.trans hsaved.resources⟩

end Files

theorem savePublicationReviewPayload_ok {db db' : ReviewDB} {taskID payload : String}
    (h : savePublicationReviewPayload db taskID payload = .ok db') :
    db'.tasks = db.tasks ∧ db'.files = db.files ∧ db'.resources = db.resources := by
  unfold savePublicationReviewPayload at h
  split at h
  · cases h
    exact ⟨rfl, rfl, rfl⟩
  · obtain ⟨-, h⟩ := require_bind_ok.1 h
    split at h
    · cases h
      exact ⟨rfl, rfl, rfl⟩
    · obtain ⟨payloads, -, h⟩ := bind_ok.1 h
      cases h
      exact ⟨rfl, rfl, rfl⟩

/-! ### A completed task -/

section Complete
variable {db : ReviewDB} {id : String} {status : ReviewStatus} {reason actorID actor : String} {at_ : Int}

theorem mem_completeTask {t : ReviewTask} (ht : t ∈ (completeTask db id status reason actorID actor at_).tasks.rows) :
    (t ∈ db.tasks.rows ∧ ¬ (t.id = id ∧ t.status = .pending)) ∨
      (t.id = id ∧ t.status = status ∧ t.activeKey = none ∧
        ∃ u ∈ db.tasks.rows, u.id = t.id ∧ u.kind = t.kind ∧ u.resourceType = t.resourceType) := by
  unfold completeTask at ht
  simp only [Table.rows_update, List.mem_map] at ht
  obtain ⟨u, hu, rfl⟩ := ht
  by_cases hp : u.id = id ∧ u.status = .pending
  · rw [if_pos hp]
    exact .inr ⟨hp.1, rfl, rfl, u, hu, rfl, rfl, rfl⟩
  · rw [if_neg hp]
    exact .inl ⟨hu, hp⟩

theorem mem_completeTask_of_not_pending {t : ReviewTask} (ht : t ∈ db.tasks.rows) (hs : t.status ≠ .pending) :
    t ∈ (completeTask db id status reason actorID actor at_).tasks.rows := by
  unfold completeTask
  simp only [Table.rows_update, List.mem_map]
  exact ⟨t, ht, if_neg fun h => hs h.2⟩

theorem exists_completeTask {t : ReviewTask} (ht : t ∈ db.tasks.rows) :
    ∃ u ∈ (completeTask db id status reason actorID actor at_).tasks.rows, u.id = t.id := by
  refine ⟨_, List.mem_map_of_mem ht, ?_⟩
  split <;> rfl

theorem Inv.completeTask (hi : Inv db) (hstatus : status ≠ .pending) :
    Inv (completeTask db id status reason actorID actor at_) := by
  have hold : ∀ {t}, t ∈ (Review.completeTask db id status reason actorID actor at_).tasks.rows →
    t.status = .pending → t ∈ db.tasks.rows := by
    intro t ht hp
    rcases mem_completeTask ht with ⟨ht, -⟩ | ⟨-, hs, -⟩
    · exact ht
    · exact absurd (hs.symm.trans hp) hstatus
  constructor
  · intro t ht
    rcases mem_completeTask ht with ⟨ht, -⟩ | ⟨-, hs, hk, -⟩
    · exact hi.active_iff t ht
    · simp [hk, hs, hstatus]
  · exact fun t ht u hu htp hup => hi.active_unique t (hold ht htp) u (hold hu hup) htp hup
  · exact fun t ht hk hp => hi.publication_key t (hold ht hp) hk hp
  · intro t ht type repository key version hk
    rcases mem_completeTask ht with ⟨ht, -⟩ | ⟨-, -, hnone, -⟩
    · exact hi.key_publication t ht type repository key version hk
    · rw [hnone] at hk
      cases hk
  · intro t ht hk
    rcases mem_completeTask ht with ⟨ht, -⟩ | ⟨-, -, -, u, hu, -, hkind, htype⟩
    · exact hi.restore_type t ht hk
    · exact htype ▸ hi.restore_type u hu (hkind.trans hk)
  · intro f hf
    obtain ⟨t, ht, he⟩ := hi.file_task f hf
    obtain ⟨u, hu, hut⟩ := @exists_completeTask _ id status reason actorID actor at_ _ ht
    exact ⟨u, hu, hut.trans he⟩
  · exact fun f hf g hg hpath t ht u hu hft hgu hkt hku hst hsu =>
      hi.file_unique f hf g hg hpath t (hold ht hst) u (hold hu hsu) hft hgu hkt hku hst hsu
  · exact hi.file_count

end Complete

/-! ### Calls that leave the resources alone -/

/-- Tasks that are no longer pending stay as they are. -/
def KeepsClosed (db db' : ReviewDB) : Prop := ∀ t ∈ db.tasks.rows, t.status ≠ .pending → t ∈ db'.tasks.rows

theorem KeepsClosed.of_eq {db db' : ReviewDB} (h : db'.tasks = db.tasks) : KeepsClosed db db' := by
  intro t ht _
  rwa [h]

theorem KeepsClosed.insertTask {db db' : ReviewDB} {task : ReviewTask} (h : insertTask db task = .ok db') :
    KeepsClosed db db' := by
  intro t ht _
  rw [(insertTask_ok h).2.2.1]
  exact List.mem_append_left _ ht

/-- What a call that creates or extends a task guarantees. -/
structure Adds (db db' : ReviewDB) : Prop where
  inv : Inv db'
  closed : KeepsClosed db db'
  resources : db'.resources = db.resources

section Calls
variable {text : Text} {json : SnapshotJSON} {access : Access} {db db' : ReviewDB}

theorem createSuperTeamTransferReview_adds {id actor : String} {request : TransferRequest} {administrator : Bool}
    {createdAt : Int} (hi : Inv db)
    (h : createSuperTeamTransferReview text access db id request actor administrator createdAt = .ok db') : Adds db db' := by
  unfold createSuperTeamTransferReview at h
  obtain ⟨type, -, h⟩ := bind_ok.1 h
  obtain ⟨-, h⟩ := require_bind_ok.1 h
  obtain ⟨target, -, h⟩ := bind_ok.1 h
  obtain ⟨actorID, -, h⟩ := bind_ok.1 h
  obtain ⟨resource, -, h⟩ := bind_ok.1 h
  obtain ⟨-, h⟩ := require_bind_ok.1 h
  obtain ⟨_, -, h⟩ := bind_ok.1 h
  obtain ⟨reviewTeam, -, h⟩ := bind_ok.1 h
  obtain ⟨-, h⟩ := require_bind_ok.1 h
  exact ⟨hi.insertTask h rfl rfl nofun nofun nofun, KeepsClosed.insertTask h, (insertTask_ok h).2.2.2.2⟩

theorem createMavenRestoreReview_adds {id repository groupID artifactID actor session : String} {createdAt : Int}
    (hi : Inv db)
    (h : createMavenRestoreReview text json access db id repository groupID artifactID actor session createdAt = .ok db') :
    Adds db db' := by
  unfold createMavenRestoreReview at h
  dsimp only at h
  obtain ⟨-, h⟩ := require_bind_ok.1 h
  obtain ⟨userID, -, h⟩ := bind_ok.1 h
  obtain ⟨⟨snapshot, sourceTeam, targetTeam⟩, -, h⟩ := bind_ok.1 h
  obtain ⟨-, h⟩ := require_bind_ok.1 h
  obtain ⟨-, h⟩ := require_bind_ok.1 h
  obtain ⟨db₁, hinsert, h⟩ := bind_ok.1 h
  obtain ⟨htasks, hfiles, hresources⟩ := savePublicationReviewPayload_ok h
  have hclosed := KeepsClosed.insertTask hinsert
  refine ⟨(hi.insertTask hinsert rfl rfl nofun nofun fun _ => rfl).congr htasks hfiles, ?_, ?_⟩
  · intro t ht hs
    rw [htasks]
    exact hclosed t ht hs
  · rw [hresources, (insertTask_ok hinsert).2.2.2.2]

theorem attach_adds {taskID : String} {p : NormalPublication} {payload : String} {result : PublicationResult}
    {t : ReviewTask} (hi : Inv db) (ht : Open db taskID p.repository t) (h : attach db taskID p payload = .ok (db', result)) :
    Inv db' ∧ db'.tasks = db.tasks ∧ db'.resources = db.resources := by
  unfold attach at h
  obtain ⟨db₁, hfiles, h⟩ := bind_ok.1 h
  obtain ⟨db₂, hpayload, h⟩ := bind_ok.1 h
  cases h
  obtain ⟨hi₁, htasks₁, hresources₁⟩ := hi.saveFiles ht hfiles
  obtain ⟨htasks₂, hfiles₂, hresources₂⟩ := savePublicationReviewPayload_ok hpayload
  exact ⟨hi₁.congr htasks₂ hfiles₂, htasks₂.trans htasks₁, hresources₂.trans hresources₁⟩

theorem createOrUpdatePublicationReview_adds {id : String} {request : PublicationRequest} {result : PublicationResult}
    (hi : Inv db) (h : createOrUpdatePublicationReview text access db id request = .ok (db', result)) : Adds db db' := by
  unfold createOrUpdatePublicationReview at h
  obtain ⟨p, -, h⟩ := bind_ok.1 h
  split at h
  · obtain ⟨actor, -, h⟩ := bind_ok.1 h
    cases actor with
    | none =>
      cases h
      exact ⟨hi, .of_eq rfl, rfl⟩
    | some actorID =>
      obtain ⟨db₁, hinsert, h⟩ := bind_ok.1 h
      have hi₁ : Inv db₁ := hi.insertTask hinsert rfl rfl (fun _ => rfl) (fun _ _ _ _ _ => rfl) nofun
      have hopen : Open db₁ id p.repository (publicationTask id p actorID request.createdAt) := by
        refine ⟨?_, rfl, rfl, rfl, rfl⟩
        rw [(insertTask_ok hinsert).2.2.1]
        simp
      obtain ⟨hi', htasks, hresources⟩ := attach_adds hi₁ hopen h
      refine ⟨hi', fun t ht hs => ?_, hresources.trans (insertTask_ok hinsert).2.2.2.2⟩
      rw [htasks]
      exact KeepsClosed.insertTask hinsert t ht hs
  · rename_i t hfind
    have ht : t ∈ db.tasks.rows := List.mem_of_find?_eq_some hfind
    obtain ⟨hkey, hstatus⟩ : t.activeKey = some p.activeKey ∧ t.status = .pending := by
      simpa using List.find?_some hfind
    obtain ⟨-, h⟩ := require_bind_ok.1 h
    split at h
    · cases h
      exact ⟨hi, .of_eq rfl, rfl⟩
    · obtain ⟨-, h⟩ := require_bind_ok.1 h
      have hkind := hi.key_publication t ht _ _ _ _ hkey
      have hrepository : t.repository = p.repository := by
        have := (hi.publication_key t ht hkind hstatus).symm.trans hkey
        unfold NormalPublication.activeKey at this
        injection this with this
        injection this
      obtain ⟨hi', htasks, hresources⟩ := attach_adds hi ⟨ht, rfl, hkind, hstatus, hrepository⟩ h
      exact ⟨hi', .of_eq htasks, hresources⟩

theorem attach_tasks {taskID : String} {p : NormalPublication} {payload : String} {result : PublicationResult}
    (h : attach db taskID p payload = .ok (db', result)) : db'.tasks = db.tasks := by
  unfold attach at h
  obtain ⟨db₁, hfiles, h⟩ := bind_ok.1 h
  obtain ⟨db₂, hpayload, h⟩ := bind_ok.1 h
  cases h
  have hsaved : ∀ (files : List ReviewFile) {db db₁ : ReviewDB},
      files.foldlM (savePublicationReviewFile taskID p.repository) db = .ok db₁ → db₁.tasks = db.tasks := by
    intro files
    induction files with
    | nil =>
      intro db db₁ h
      cases h
      rfl
    | cons f files ih =>
      intro db db₁ h
      rw [List.foldlM_cons] at h
      obtain ⟨db₂, hf, h⟩ := bind_ok.1 h
      exact (ih h).trans (savePublicationReviewFile_ok hf).tasks
  exact (savePublicationReviewPayload_ok hpayload).1.trans (hsaved p.files hfiles)

theorem createOrUpdatePublicationReview_tasks {id : String} {request : PublicationRequest} {result : PublicationResult}
    (h : createOrUpdatePublicationReview text access db id request = .ok (db', result)) :
    db'.tasks.rows = db.tasks.rows ∨ ∃ p actorID, normalizePublication text request = .ok p ∧
      access.userID p.actor = some actorID ∧
      db'.tasks.rows = db.tasks.rows ++ [publicationTask id p actorID request.createdAt] := by
  unfold createOrUpdatePublicationReview at h
  obtain ⟨p, hp, h⟩ := bind_ok.1 h
  split at h
  · obtain ⟨actor, hactor, h⟩ := bind_ok.1 h
    cases actor with
    | none =>
      cases h
      exact .inl rfl
    | some actorID =>
      obtain ⟨db₁, hinsert, h⟩ := bind_ok.1 h
      refine .inr ⟨p, actorID, hp, ?_, ?_⟩
      · unfold newPublication at hactor
        split at hactor
        · cases hactor
        · obtain ⟨-, hactor⟩ := require_bind_ok.1 hactor
          split at hactor
          · cases hactor
          · obtain ⟨id, hid, hactor⟩ := bind_ok.1 hactor
            obtain ⟨-, hactor⟩ := require_bind_ok.1 hactor
            obtain ⟨-, hactor⟩ := require_bind_ok.1 hactor
            cases hactor
            exact orError_ok.1 hid
      · rw [attach_tasks h, (insertTask_ok hinsert).2.2.1]
  · left
    obtain ⟨-, h⟩ := require_bind_ok.1 h
    split at h
    · cases h
      rfl
    · obtain ⟨-, h⟩ := require_bind_ok.1 h
      rw [attach_tasks h]

theorem cancelReviewTask_adds {id actor : String} {cancelledAt : Int} (hi : Inv db)
    (h : cancelReviewTask text access db id actor cancelledAt = .ok db') : Adds db db' := by
  unfold cancelReviewTask at h
  dsimp only at h
  obtain ⟨actorID, -, h⟩ := bind_ok.1 h
  obtain ⟨-, h⟩ := require_bind_ok.1 h
  obtain ⟨task, -, h⟩ := bind_ok.1 h
  obtain ⟨-, h⟩ := require_bind_ok.1 h
  obtain ⟨-, h⟩ := require_bind_ok.1 h
  obtain ⟨-, h⟩ := require_bind_ok.1 h
  cases h
  exact ⟨(@Inv.completeTask _ _ .cancelled _ _ _ _ hi nofun).congr rfl rfl, fun t ht hs =>
    mem_completeTask_of_not_pending ht hs, rfl⟩

/-! ### Decisions -/

theorem rowsAffected_le (key : ResourceKey) (p : Resource → Bool) : rowsAffected db key p ≤ 1 := by
  unfold rowsAffected
  have hsub : ((db.resources.rows.filter fun r => r.rowKey = key ∧ p r = true).map Resource.rowKey).Nodup :=
    db.resources.nodup.sublist (List.filter_sublist.map _)
  have hall : ∀ k ∈ (db.resources.rows.filter fun r => r.rowKey = key ∧ p r = true).map Resource.rowKey, k = key := by
    intro k hk
    obtain ⟨r, hr, rfl⟩ := List.mem_map.1 hk
    have := (List.mem_filter.1 hr).2
    simp only [decide_eq_true_eq] at this
    exact this.1
  rw [List.eq_replicate_of_mem hall, List.nodup_replicate, List.length_map] at hsub
  exact hsub

theorem updateResource_eq_self {key : ResourceKey} {p : Resource → Bool} {f : Resource → Resource}
    {hf : ∀ r, (f r).rowKey = r.rowKey} (h : rowsAffected db key p ≠ 1) :
      (updateResource db key p f hf).resources = db.resources := by
  have hzero : rowsAffected db key p = 0 := by
    have := @rowsAffected_le db key p
    omega
  refine Table.ext_rows ((List.map_congr_left fun r hr => if_neg fun hp => ?_).trans db.resources.rows.map_id)
  have := List.eq_nil_of_length_eq_zero hzero
  rw [List.filter_eq_nil_iff] at this
  exact this r hr (by simpa using hp)

theorem updateResource_eq {key : ResourceKey} {p : Resource → Bool} {f : Resource → Resource}
    {hf : ∀ r, (f r).rowKey = r.rowKey} (h : rowsAffected db key p = 1) :
    ∃ r ∈ db.resources.rows, r.rowKey = key ∧ p r = true ∧ (updateResource db key p f hf).resources.rows =
      db.resources.rows.map fun x => if x.rowKey = key then f r else x := by
  obtain ⟨r, hr⟩ := List.length_eq_one_iff.1 h
  have hmem : r ∈ db.resources.rows.filter fun r => r.rowKey = key ∧ p r = true := by
    rw [hr]
    simp
  obtain ⟨hrow, hp⟩ := List.mem_filter.1 hmem
  simp only [decide_eq_true_eq] at hp
  refine ⟨r, hrow, hp.1, hp.2, List.map_congr_left fun x hx => ?_⟩
  by_cases hk : x.rowKey = key
  · obtain rfl := db.resources.eq_of_key hx hrow (hk.trans hp.1.symm)
    rw [if_pos ⟨hk, hp.2⟩, if_pos hk]
  · rw [if_neg hk, if_neg fun h => hk h.1]

/-- The row of the task's resource goes from the source to the target team. -/
structure Applied (text : Text) (task : ReviewTask) (db db' : ReviewDB) (r r' : Resource) : Prop where
  row : r ∈ db.resources.rows
  own : transferRowKey text task = .ok r.rowKey
  source : r.superTeamPrefix = task.sourceTeamPrefix
  target : r'.superTeamPrefix = task.targetTeamPrefix
  rows : db'.resources.rows = db.resources.rows.map fun x => if x.rowKey = r.rowKey then r' else x

theorem applySuperTeamTransfer_spec {task : ReviewTask} {decidedAt : Int} {result : Except ReviewError Unit}
    (h : applySuperTeamTransfer text access db task decidedAt = (result, db')) :
    db'.tasks = db.tasks ∧ db'.files = db.files ∧
      (result = .ok () → ∃ r r', Applied text task db db' r r') ∧
        (result ≠ .ok () → db'.resources = db.resources) := by
  unfold applySuperTeamTransfer at h
  split at h
  · cases h
    exact ⟨rfl, rfl, nofun, fun _ => rfl⟩
  · rename_i rowKey hrow
    cases h
    refine ⟨rfl, rfl, fun hok => ?_, fun hne => updateResource_eq_self fun h1 => hne (require_ok.2 h1)⟩
    obtain ⟨r, hr, hkey, hfrom, hrows⟩ := @updateResource_eq _ _ _ (·.transfer task.targetTeamPrefix decidedAt)
      (fun r => r.transfer_rowKey _ _) (require_ok.1 hok)
    have hown : transferRowKey text task = .ok rowKey := by
      unfold transferRow at hrow
      obtain ⟨_, -, hrow⟩ := bind_ok.1 hrow
      obtain ⟨-, hrow⟩ := require_bind_ok.1 hrow
      obtain ⟨_, -, hrow⟩ := bind_ok.1 hrow
      obtain ⟨_, -, hrow⟩ := bind_ok.1 hrow
      obtain ⟨_, -, hrow⟩ := bind_ok.1 hrow
      obtain ⟨key, hk, hrow⟩ := bind_ok.1 hrow
      obtain ⟨_, -, hrow⟩ := bind_ok.1 hrow
      cases hrow
      exact hk
    unfold transferFrom at hfrom
    rw [Bool.and_eq_true, decide_eq_true_eq] at hfrom
    refine ⟨r, r.transfer task.targetTeamPrefix decidedAt, hr, hkey ▸ hown, hfrom.1, ?_, hkey ▸ hrows⟩
    unfold Resource.transfer
    split <;> rfl

theorem applyMavenRestore_spec {task : ReviewTask} {result : Except ReviewError Unit}
    (htype : task.resourceType = .mavenArtifact) (h : applyMavenRestore text json access db task = (result, db')) :
    db'.tasks = db.tasks ∧ db'.files = db.files ∧
      (result = .ok () → ∃ r r', Applied text task db db' r r') ∧
        (result ≠ .ok () → db'.resources = db.resources) := by
  unfold applyMavenRestore at h
  split at h
  · cases h
    exact ⟨rfl, rfl, nofun, fun _ => rfl⟩
  · rename_i rowKey expected hrow
    cases h
    refine ⟨rfl, rfl, fun hok => ?_, fun hne => updateResource_eq_self fun h1 => hne (require_ok.2 h1)⟩
    obtain ⟨r, hr, hkey, -, hrows⟩ := @updateResource_eq _ _ _ (·.restore task.targetTeamPrefix) (fun _ => rfl)
      (require_ok.1 hok)
    unfold restoreRow at hrow
    obtain ⟨⟨group, artifact⟩, hsplit, hrow⟩ := bind_ok.1 hrow
    obtain ⟨_, -, hrow⟩ := bind_ok.1 hrow
    obtain ⟨-, hrow⟩ := require_bind_ok.1 hrow
    obtain ⟨_, -, hrow⟩ := bind_ok.1 hrow
    obtain ⟨⟨current, sourceTeam, targetTeam⟩, hstate, hrow⟩ := bind_ok.1 hrow
    obtain ⟨hsame, hrow⟩ := require_bind_ok.1 hrow
    cases hrow
    have hown : transferRowKey text task = .ok (.mavenArtifact, task.repository, group ++ ":" ++ artifact) := by
      unfold transferRowKey
      rw [htype]
      dsimp only
      rw [hsplit]
      rfl
    -- the row is the one that the state was read from
    have hsource : r.superTeamPrefix = task.sourceTeamPrefix := by
      unfold mavenRestoreState at hstate
      obtain ⟨-, hstate⟩ := require_bind_ok.1 hstate
      obtain ⟨a, ha, hstate⟩ := bind_ok.1 hstate
      obtain ⟨_, -, hstate⟩ := bind_ok.1 hstate
      obtain ⟨_, -, hstate⟩ := bind_ok.1 hstate
      obtain ⟨-, hstate⟩ := require_bind_ok.1 hstate
      obtain ⟨_, -, hstate⟩ := bind_ok.1 hstate
      obtain ⟨-, hstate⟩ := require_bind_ok.1 hstate
      obtain ⟨-, hstate⟩ := require_bind_ok.1 hstate
      obtain ⟨-, hstate⟩ := require_bind_ok.1 hstate
      cases hstate
      obtain ⟨ha, hakey⟩ := Table.find?_eq_some.1 (orError_ok.1 ha)
      obtain rfl := db.resources.eq_of_key hr ha (hkey.trans hakey.symm)
      exact hsame.2.1
    exact ⟨r, r.restore task.targetTeamPrefix, hr, hkey ▸ hown, hsource, rfl, hkey ▸ hrows⟩

theorem applyApproval_spec {task : ReviewTask} {decidedAt : Int} {result : Except ReviewError Unit}
    (htype : task.kind = .mavenRestore → task.resourceType = .mavenArtifact)
    (h : applyApproval text json access db task decidedAt = (result, db')) :
    db'.tasks = db.tasks ∧ db'.files = db.files ∧
      (result = .ok () → task.kind = .superTeamTransfer ∨ task.kind = .mavenRestore → ∃ r r',
        Applied text task db db' r r') ∧ (result ≠ .ok () ∨ ¬ (task.kind = .superTeamTransfer ∨ task.kind = .mavenRestore) →
        db'.resources = db.resources) := by
  unfold applyApproval at h
  split at h
  · rename_i hkind
    obtain ⟨ht, hf, hok, herr⟩ := applySuperTeamTransfer_spec h
    exact ⟨ht, hf, fun h _ => hok h, fun h => herr (h.resolve_right (by simp [hkind]))⟩
  · rename_i hkind
    obtain ⟨ht, hf, hok, herr⟩ := applyMavenRestore_spec (htype hkind) h
    exact ⟨ht, hf, fun h _ => hok h, fun h => herr (h.resolve_right (by simp [hkind]))⟩
  · rename_i h1 h2
    cases h
    exact ⟨rfl, rfl, fun _ h => h.elim (absurd · h1) (absurd · h2), fun _ => rfl⟩

theorem finishDecision_spec {task : ReviewTask} {status : ReviewStatus} {reason actorID actor : String} {decidedAt : Int} :
    (finishDecision db task status reason actorID actor decidedAt).tasks =
      (completeTask db task.id status reason actorID actor decidedAt).tasks ∧
    (finishDecision db task status reason actorID actor decidedAt).files = db.files ∧
    (finishDecision db task status reason actorID actor decidedAt).resources = db.resources := by
  unfold finishDecision
  dsimp only
  split
  · exact ⟨rfl, rfl, rfl⟩
  · exact ⟨rfl, rfl, rfl⟩

/-- What a decision did to its task and to the resources. -/
structure Decided (text : Text) (db db' : ReviewDB) (id : String) (decision status : ReviewStatus) (task task' : ReviewTask) :
    Prop where
  before : task ∈ db.tasks.rows
  pending : task.status = .pending
  id_eq : task.id = id
  after : task' ∈ db'.tasks.rows
  same_id : task'.id = task.id
  status_eq : task'.status = status
  /-- The decision itself, or a cancellation of an approval. -/
  outcome : status = decision ∨ (decision = .approved ∧ status = .cancelled ∧ task'.decisionReason = "resource_changed")
  closed : status ≠ .pending
  /-- An approved transfer or restoration moves the resource from the source to the target team. -/
  applied : status = .approved → task.kind = .superTeamTransfer ∨ task.kind = .mavenRestore →
    ∃ r r', Applied text task db db' r r'
  /-- Everything else leaves the resources as they were. -/
  unchanged : ¬ (status = .approved ∧ (task.kind = .superTeamTransfer ∨ task.kind = .mavenRestore)) →
    db'.resources = db.resources

theorem decideReviewTask_effect {id actor reason : String} {decision status : ReviewStatus} {decidedAt : Int}
    {error : Option ReviewError} (hi : Inv db)
    (h : decideReviewTask text json access db id actor decision reason decidedAt = .ok (db', status, error)) :
    Inv db' ∧ KeepsClosed db db' ∧ ∃ task task', Decided text db db' (sanitized text id 64) decision status task
      task' := by
  unfold decideReviewTask at h
  dsimp only at h
  obtain ⟨reason, -, h⟩ := bind_ok.1 h
  obtain ⟨-, h⟩ := require_bind_ok.1 h
  obtain ⟨hdecision, h⟩ := require_bind_ok.1 h
  obtain ⟨actorID, -, h⟩ := bind_ok.1 h
  obtain ⟨task, hfind, h⟩ := bind_ok.1 h
  obtain ⟨hpending, h⟩ := require_bind_ok.1 h
  obtain ⟨-, h⟩ := require_bind_ok.1 h
  obtain ⟨_, -, h⟩ := bind_ok.1 h
  obtain ⟨_, -, h⟩ := bind_ok.1 h
  obtain ⟨htask, hid⟩ := Table.find?_eq_some.1 (orError_ok.1 hfind)
  -- the end of the transaction, after tables `db₁` that differ in the resources only
  have hfinish : ∀ {db₁ : ReviewDB} {reason} status, db₁.tasks = db.tasks → db₁.files = db.files →
    status ≠ .pending → Inv (finishDecision db₁ task status reason actorID (text.toLower (text.trimSpace actor)) decidedAt) ∧
      KeepsClosed db (finishDecision db₁ task status reason actorID (text.toLower (text.trimSpace actor)) decidedAt) ∧
      ∃ task' ∈ (finishDecision db₁ task status reason actorID (text.toLower (text.trimSpace actor))
        decidedAt).tasks.rows, task'.id = task.id ∧ task'.status = status ∧ task'.decisionReason = reason := by
    intro db₁ reason status htasks hfiles hstatus
    obtain ⟨ht, hf, -⟩ := @finishDecision_spec db₁ task status reason actorID (text.toLower (text.trimSpace actor))
      decidedAt
    have hi₁ : Inv db₁ := hi.congr htasks hfiles
    refine ⟨(hi₁.completeTask hstatus).congr ht hf, fun t htr hs => ?_, ?_⟩
    · rw [ht]
      exact mem_completeTask_of_not_pending (htasks ▸ htr) hs
    · rw [ht]
      refine ⟨_, List.mem_map_of_mem (htasks ▸ htask), ?_⟩
      rw [if_pos ⟨rfl, hpending⟩]
      exact ⟨rfl, rfl, rfl⟩
  split at h
  · rename_i happroved
    split at h
    · rename_i db₁ happly
      cases h
      obtain ⟨ht, hf, hok, hun⟩ := applyApproval_spec (hi.restore_type task htask) happly
      obtain ⟨hinv, hclosed, task', htask', hid', hs', -⟩ := hfinish .approved ht hf nofun
      have hres := (@finishDecision_spec db₁ task .approved ("") actorID (text.toLower (text.trimSpace actor))
        decidedAt).2.2
      refine ⟨hinv, hclosed, task, task', htask, hpending, hid, htask', hid', hs', .inl happroved.symm, nofun, ?_, ?_⟩
      · intro _ hk
        obtain ⟨r, r', ha⟩ := hok rfl hk
        exact ⟨r, r', ha.row, ha.own, ha.source, ha.target, by rw [hres]; exact ha.rows⟩
      · intro hn
        rw [hres]
        exact hun (.inr fun hk => hn ⟨rfl, hk⟩)
    · rename_i e db₁ happly
      obtain ⟨-, h⟩ := require_bind_ok.1 h
      cases h
      obtain ⟨ht, hf, -, hun⟩ := applyApproval_spec (hi.restore_type task htask) happly
      obtain ⟨hinv, hclosed, task', htask', hid', hs', hreason⟩ := hfinish .cancelled ht hf nofun
      have hres := (@finishDecision_spec db₁ task .cancelled ("resource_changed") actorID
        (text.toLower (text.trimSpace actor)) decidedAt).2.2
      exact ⟨hinv, hclosed, task, task', htask, hpending, hid, htask', hid', hs', .inr ⟨happroved, rfl, hreason⟩, nofun,
        nofun, fun _ => hres.trans (hun (.inl nofun))⟩
  · rename_i happroved
    cases h
    obtain ⟨hinv, hclosed, task', htask', hid', hs', -⟩ := hfinish .rejected rfl rfl nofun
    have hres := (@finishDecision_spec db task .rejected reason actorID (text.toLower (text.trimSpace actor)) decidedAt).2.2
    refine ⟨hinv, hclosed, task, task', htask, hpending, hid, htask', hid', hs', .inl ?_, nofun, nofun, fun _ => ?_⟩
    · exact (hdecision.resolve_left happroved).1.symm
    · exact finishDecision_spec.2.2

theorem decideReviewTask_pending {id actor reason : String} {decision status : ReviewStatus} {decidedAt : Int}
    {error : Option ReviewError} (hi : Inv db)
    (h : decideReviewTask text json access db id actor decision reason decidedAt = .ok (db', status, error)) :
    ∀ t ∈ db'.tasks.rows, t.status = .pending → t ∈ db.tasks.rows := by
  unfold decideReviewTask at h
  dsimp only at h
  obtain ⟨reason, -, h⟩ := bind_ok.1 h
  obtain ⟨-, h⟩ := require_bind_ok.1 h
  obtain ⟨-, h⟩ := require_bind_ok.1 h
  obtain ⟨actorID, -, h⟩ := bind_ok.1 h
  obtain ⟨task, hfind, h⟩ := bind_ok.1 h
  obtain ⟨-, h⟩ := require_bind_ok.1 h
  obtain ⟨-, h⟩ := require_bind_ok.1 h
  obtain ⟨_, -, h⟩ := bind_ok.1 h
  obtain ⟨_, -, h⟩ := bind_ok.1 h
  have htask := (Table.find?_eq_some.1 (orError_ok.1 hfind)).1
  have hfinish : ∀ {db₁ : ReviewDB} {status reason actor}, db₁.tasks = db.tasks → status ≠ .pending →
      ∀ t ∈ (finishDecision db₁ task status reason actorID actor decidedAt).tasks.rows, t.status = .pending →
          t ∈ db.tasks.rows := by
    intro db₁ status reason actor htasks hstatus t ht hs
    rw [finishDecision_spec.1] at ht
    rcases mem_completeTask ht with ⟨hold, -⟩ | ⟨-, hnew, -⟩
    · exact htasks ▸ hold
    · exact absurd (hnew.symm.trans hs) hstatus
  split at h
  · split at h
    · rename_i happly
      cases h
      exact hfinish (applyApproval_spec (hi.restore_type task htask) happly).1 nofun
    · rename_i happly
      obtain ⟨-, h⟩ := require_bind_ok.1 h
      cases h
      exact hfinish (applyApproval_spec (hi.restore_type task htask) happly).1 nofun
  · cases h
    exact hfinish rfl nofun

end Calls

/-! ### Runs -/

inductive Call
  | createSuperTeamTransferReview (id : String) (request : TransferRequest) (actor : String) (administrator : Bool)
    (createdAt : Int)
  | createMavenRestoreReview (id repository groupID artifactID actor session : String) (createdAt : Int)
  | createOrUpdatePublicationReview (id : String) (request : PublicationRequest)
  | decideReviewTask (id actor : String) (decision : ReviewStatus) (reason : String) (decidedAt : Int)
  | cancelReviewTask (id actor : String) (cancelledAt : Int)
  /-- Other calls publish, delete, bind and move packages, artifacts and domains. -/
  | other (resources : Table Resource.rowKey)

section Runs
variable (text : Text) (json : SnapshotJSON)

/-- A call, with what the other tables say at its time; a call that fails changes nothing. -/
def step (db : ReviewDB) (e : Access × Call) : ReviewDB :=
  match e.2 with
  | .createSuperTeamTransferReview id request actor administrator createdAt =>
    (createSuperTeamTransferReview text e.1 db id request actor administrator createdAt).toOption.getD db
  | .createMavenRestoreReview id repository groupID artifactID actor session createdAt =>
    (createMavenRestoreReview text json e.1 db id repository groupID artifactID actor session createdAt).toOption.getD db
  | .createOrUpdatePublicationReview id request =>
    ((createOrUpdatePublicationReview text e.1 db id request).toOption.map (·.1)).getD db
  | .decideReviewTask id actor decision reason decidedAt =>
    ((decideReviewTask text json e.1 db id actor decision reason decidedAt).toOption.map (·.1)).getD db
  | .cancelReviewTask id actor cancelledAt => (cancelReviewTask text e.1 db id actor cancelledAt).toOption.getD db
  | .other resources => { db with resources }

def run (db : ReviewDB) (events : List (Access × Call)) : ReviewDB := events.foldl (step text json) db

variable {text json}

theorem toOption_getD {α : Type} {P : α → Prop} {x : Except ReviewError α} {a : α} (ha : P a) (h : ∀ b, x = .ok b → P b) :
    P (x.toOption.getD a) := by
  cases hx : x with
  | error => simpa [Except.toOption] using ha
  | ok b => simpa [Except.toOption] using h b hx

theorem toOption_map_getD {α β : Type} {P : α → Prop} {x : Except ReviewError (α × β)} {a : α} (ha : P a)
    (h : ∀ b, x = .ok b → P b.1) : P ((x.toOption.map (·.1)).getD a) := by
  cases hx : x with
  | error => simpa [Except.toOption] using ha
  | ok b => simpa [Except.toOption] using h b hx

attribute [local irreducible] createSuperTeamTransferReview createMavenRestoreReview createOrUpdatePublicationReview
    decideReviewTask cancelReviewTask

theorem step_inv {db : ReviewDB} (hi : Inv db) (e : Access × Call) :
    Inv (step text json db e) ∧ KeepsClosed db (step text json db e) := by
  have hsame : Inv db ∧ KeepsClosed db db := ⟨hi, .of_eq rfl⟩
  obtain ⟨access, call⟩ := e
  cases call with
  | createSuperTeamTransferReview id request actor administrator createdAt =>
    refine toOption_getD (P := fun db' => Inv db' ∧ KeepsClosed db db') hsame fun db' h => ?_
    have ha := createSuperTeamTransferReview_adds hi h
    exact ⟨ha.inv, ha.closed⟩
  | createMavenRestoreReview id repository groupID artifactID actor session createdAt =>
    refine toOption_getD (P := fun db' => Inv db' ∧ KeepsClosed db db') hsame fun db' h => ?_
    have ha := createMavenRestoreReview_adds hi h
    exact ⟨ha.inv, ha.closed⟩
  | createOrUpdatePublicationReview id request =>
    refine toOption_map_getD (P := fun db' => Inv db' ∧ KeepsClosed db db') hsame fun r h => ?_
    have ha := createOrUpdatePublicationReview_adds hi h
    exact ⟨ha.inv, ha.closed⟩
  | decideReviewTask id actor decision reason decidedAt =>
    refine toOption_map_getD (P := fun db' => Inv db' ∧ KeepsClosed db db') hsame fun r h => ?_
    obtain ⟨hinv, hclosed, -⟩ := decideReviewTask_effect hi h
    exact ⟨hinv, hclosed⟩
  | cancelReviewTask id actor cancelledAt =>
    refine toOption_getD (P := fun db' => Inv db' ∧ KeepsClosed db db') hsame fun db' h => ?_
    have ha := cancelReviewTask_adds hi h
    exact ⟨ha.inv, ha.closed⟩
  | other resources => exact ⟨hi.congr rfl rfl, .of_eq rfl⟩

theorem run_inv {db : ReviewDB} (hi : Inv db) (events : List (Access × Call)) :
    Inv (run text json db events) ∧ KeepsClosed db (run text json db events) := by
  induction events generalizing db with
  | nil => exact ⟨hi, .of_eq rfl⟩
  | cons e events ih =>
    obtain ⟨hi₁, hclosed⟩ := @step_inv text json _ hi e
    obtain ⟨hi₂, hclosed₂⟩ := ih hi₁
    exact ⟨hi₂, fun t ht hs => hclosed₂ t (hclosed t ht hs) hs⟩

end Runs

/-- In every state that calls reach from tables without reviews the invariant holds, further calls leave the tasks that
are no longer pending as they are, and a decision has the effect that `Decided` says. -/
theorem reviews_one_shot (text : Text) (json : SnapshotJSON) (resources : Table Resource.rowKey)
    (events : List (Access × Call)) :
    Inv (run text json (noReviews resources) events) ∧
    (∀ later, KeepsClosed (run text json (noReviews resources) events)
      (run text json (noReviews resources) (events ++ later))) ∧
    ∀ access id actor decision reason decidedAt db' status error,
      decideReviewTask text json access (run text json (noReviews resources) events) id actor decision reason decidedAt =
        .ok (db', status, error) →
      ∃ task task', Decided text (run text json (noReviews resources) events) db' (sanitized text id 64) decision
        status task task' := by
  have hi := (@run_inv text json _ (noReviews_inv resources) events).1
  refine ⟨hi, fun later => ?_, fun access id actor decision reason decidedAt db' status error h => ?_⟩
  · unfold run
    rw [List.foldl_append]
    exact (run_inv hi later).2
  · exact (decideReviewTask_effect hi h).2.2

end Renop.Review
