import Renop.ResourceLock

/-!
# What the locks decide

The batched check of a page of packages answers for each target as if it were alone (`answerFor`), and that is the rule
for one target as long as both look at the same repository. A change of a lock leaves the locks of other targets and
other sources alone, because the text that a lock is numbered by can be taken apart again.
-/

namespace Renop.Locks

open Sql
open Renop.SuperTeam (Text)
open Renop.Maven (LockMode)

/-! ### Numbers of locks -/

theorem toList_sized (s : String) : (sized s).toList = Nat.toDigits 10 s.utf8ByteSize ++ ':' :: s.toList := by
  simp [sized, String.toList_append, Nat.toList_repr]

theorem takeWhile_digits (n : Nat) (l : List Char) :
    (Nat.toDigits 10 n ++ ':' :: l).takeWhile (· ≠ ':') = Nat.toDigits 10 n := by
  rw [List.takeWhile_append_of_pos, List.takeWhile_cons_of_neg (by simp), List.append_nil]
  intro c hc
  have hdigit := Nat.isDigit_of_mem_toDigits (by decide) (by decide) hc
  rw [decide_eq_true_eq]
  rintro rfl
  exact absurd hdigit (by decide)

theorem eq_of_append {s t x y : String} (hsize : s.utf8ByteSize = t.utf8ByteSize)
    (h : s.toList ++ x.toList = t.toList ++ y.toList) : s = t ∧ x = y := by
  have hnil : ∀ {u v : String} {a : List Char}, u.utf8ByteSize = v.utf8ByteSize → v.toList = u.toList ++ a →
      a = [] := by
    intro u v a huv hv
    have hv : v = u ++ String.ofList a := by
      rw [← String.toList_inj, String.toList_append, String.toList_ofList, hv]
    rw [hv, String.utf8ByteSize_append] at huv
    have ha : String.ofList a = "" := String.utf8ByteSize_eq_zero_iff.1 (by omega)
    simpa using congrArg String.toList ha
  rcases List.append_eq_append_iff.1 h with ⟨a, ht, hx⟩ | ⟨a, hs, hy⟩
  · have ha := hnil hsize ht
    subst ha
    simp only [List.append_nil, List.nil_append] at ht hx
    exact ⟨String.toList_inj.1 ht.symm, String.toList_inj.1 hx⟩
  · have ha := hnil hsize.symm hs
    subst ha
    simp only [List.append_nil, List.nil_append] at hs hy
    exact ⟨String.toList_inj.1 hs, String.toList_inj.1 hy.symm⟩

theorem sized_append_inj {s t x y : String} (h : sized s ++ x = sized t ++ y) : s = t ∧ x = y := by
  have hlist := congrArg String.toList h
  simp only [String.toList_append, toList_sized, List.append_assoc, List.cons_append] at hlist
  have hdigits : Nat.toDigits 10 s.utf8ByteSize = Nat.toDigits 10 t.utf8ByteSize := by
    rw [← takeWhile_digits _ (s.toList ++ x.toList), hlist, takeWhile_digits]
  have hsize : s.utf8ByteSize = t.utf8ByteSize := by
    rw [← Nat.ofDigitChars_ten_toDigits (n := s.utf8ByteSize), hdigits, Nat.ofDigitChars_ten_toDigits]
  rw [hdigits] at hlist
  exact eq_of_append hsize (List.cons_inj_right _ |>.1 (List.append_cancel_left hlist))

theorem LockFormat.name_inj {f g : LockFormat} (h : f.name = g.name) : f = g := by
  rcases f with (_ | _ | _) | _ | _ | _ <;> rcases g with (_ | _ | _) | _ | _ | _ <;> first | rfl | exact absurd h (by decide)

theorem resourceLockID_inj {t u : LockTarget} (h : resourceLockID t = resourceLockID u) : t = u := by
  unfold resourceLockID packageDeprecationID at h
  rw [String.append_assoc, String.append_assoc] at h
  obtain ⟨hformat, h⟩ := sized_append_inj h
  obtain ⟨hrepository, h⟩ := sized_append_inj h
  have hkey : sized (sized t.name ++ sized t.version) ++ "" = sized (sized u.name ++ sized u.version) ++ "" := by rw [h]
  obtain ⟨hname, hversion⟩ := sized_append_inj (sized_append_inj hkey).1
  have hversion : sized t.version ++ "" = sized u.version ++ "" := by rw [hversion]
  cases t
  cases u
  cases LockFormat.name_inj hformat
  cases hrepository
  cases hname
  cases (sized_append_inj hversion).1
  rfl

section Rules
variable {text : Text} {db : LockDB} {f : PackageFormat} {repository username : String} {moderator : Bool}

/-! ### The rule for one target -/

/-- The viewer belongs to a package, alone or with its team. -/
def PackageMember (db : LockDB) (f : PackageFormat) (userID repository name : String) : Prop :=
  ∃ p, (db.packages f).find? (repository, name) = some p ∧
    (db.member f p.repository p.name userID = true ∨ db.teamMember p.superTeamPrefix userID = true)

/-- A lock closes a target, with all its versions or alone, to readers. -/
def ReadLock (db : LockDB) (f : PackageFormat) (n : LockTarget) : Prop :=
  ∃ l ∈ resourceLocksQuery db f, l.target.format = .package f ∧ l.target.repository = n.repository ∧
    l.target.name = n.name ∧ (l.target.version = "" ∨ l.target.version = n.version) ∧ l.mode = .read

/-- What a page of packages is to show: the targets of moderators, of members and without a read lock. -/
def Inspectable (text : Text) (db : LockDB) (f : PackageFormat) (repository username : String) (moderator : Bool)
    (t : LockTarget) : Prop :=
  moderator = true ∨ ∃ n, normalizePackageTarget text f repository t.name t.version = .ok n ∧
    (PackageMember db f (viewerID text db username) n.repository n.name ∨
      ∃ locks, getResourceLocks text db f repository t.name t.version false = .ok locks ∧ readLocked locks = false)

theorem normalizePackageTarget_ok {name version : String} {n : LockTarget}
    (h : normalizePackageTarget text f repository name version = .ok n) :
    n.format = .package f ∧ n.repository = text.toLower (text.trimSpace repository) := by
  obtain ⟨⟨r, k⟩, hbound, h⟩ := bind_ok.1 h
  obtain ⟨-, hbound⟩ := require_bind_ok.1 hbound
  cases hbound
  obtain ⟨-, -, h⟩ := bind_ok.1 h
  cases h
  exact ⟨rfl, rfl⟩

theorem outsider_iff {userID : String} {l : ResourceLock} :
    outsider db f userID l = true ↔ ¬PackageMember db f userID l.target.repository l.target.name := by
  unfold outsider PackageMember
  cases h : (db.packages f).find? (l.target.repository, l.target.name) with
  | none => simp
  | some p => simp

theorem getResourceLocks_readLocked {name version : String} {n : LockTarget} {locks : List ResourceLock}
    (hn : normalizePackageTarget text f repository name version = .ok n)
    (h : getResourceLocks text db f repository name version false = .ok locks) :
    readLocked locks = true ↔ ReadLock db f n := by
  obtain ⟨target, htarget, h⟩ := bind_ok.1 h
  rw [hn] at htarget
  cases htarget
  cases h
  have hformat := (normalizePackageTarget_ok hn).1
  unfold readLocked ReadLock
  simp only [List.any_eq_true, decide_eq_true_eq, List.mem_insertionSort, List.mem_filter, Bool.and_eq_true, Bool.or_eq_true,
    Bool.false_or, hformat]
  constructor
  · rintro ⟨l, ⟨hl, ⟨⟨hf, hr⟩, hname⟩, hv⟩, hmode⟩
    exact ⟨l, hl, hf, hr, hname, hv, hmode⟩
  · rintro ⟨l, hl, hf, hr, hname, hv, hmode⟩
    exact ⟨l, ⟨hl, ⟨⟨hf, hr⟩, hname⟩, hv⟩, hmode⟩

theorem inspectable_iff (db : LockDB) (username : String) (moderator : Bool) {t n : LockTarget}
    (hn : normalizePackageTarget text f repository t.name t.version = .ok n) :
    Inspectable text db f repository username moderator t ↔
      moderator = true ∨ PackageMember db f (viewerID text db username) n.repository n.name ∨ ¬ReadLock db f n := by
  have hlocks : ∃ locks, getResourceLocks text db f repository t.name t.version false = .ok locks := by
    unfold getResourceLocks
    rw [hn]
    exact ⟨_, rfl⟩
  obtain ⟨locks, hlocks⟩ := hlocks
  unfold Inspectable
  refine or_congr_right ?_
  constructor
  · rintro ⟨m, hm, h⟩
    rw [hn] at hm
    cases hm
    rcases h with hmember | ⟨locks', h, hread⟩
    · exact .inl hmember
    · refine .inr fun hlock => ?_
      rw [← getResourceLocks_readLocked hn h, hread] at hlock
      cases hlock
  · intro h
    refine ⟨n, hn, h.imp_right fun hlock => ⟨locks, hlocks, ?_⟩⟩
    rw [← getResourceLocks_readLocked hn hlocks] at hlock
    simpa using hlock

/-! ### The batched check -/

/-- What the batch answers for one target: nothing is found under a name that the normalized targets do not have. -/
def answerFor (text : Text) (db : LockDB) (f : PackageFormat) (repository userID : String) (n : LockTarget) : Prop :=
  text.toLower repository = n.repository → ReadLock db f n → PackageMember db f userID n.repository n.name

theorem mem_hidden (text : Text) (db : LockDB) (repository userID : String) {version : String} {normalized : List LockTarget}
    {n : LockTarget} (hn : n ∈ normalized)
    (hformat : n.format = .package f) (hversion : version = n.version ∨ version = "") :
    (⟨n.format, n.repository, n.name, version⟩ : LockTarget) ∈ (((resourceLocksQuery db f).filter fun l =>
      l.target.format = .package f && l.target.repository = text.toLower repository && l.mode = .read &&
        outsider db f userID l && normalized.any fun t =>
          l.target.name = t.name && (l.target.version = "" || l.target.version = t.version)).map fun l =>
      (⟨.package f, text.toLower repository, l.target.name, l.target.version⟩ : LockTarget)) ↔
    text.toLower repository = n.repository ∧ ¬PackageMember db f userID n.repository n.name ∧
      ∃ l ∈ resourceLocksQuery db f, l.target.format = .package f ∧ l.target.repository = n.repository ∧
        l.mode = .read ∧ l.target.name = n.name ∧ l.target.version = version := by
  simp only [List.mem_map, List.mem_filter, List.any_eq_true, Bool.and_eq_true, Bool.or_eq_true, decide_eq_true_eq,
    outsider_iff]
  constructor
  · rintro ⟨l, ⟨hl, ⟨⟨⟨hf, hr⟩, hmode⟩, hout⟩, -⟩, he⟩
    rw [LockTarget.mk.injEq] at he
    obtain ⟨-, hrepository, hname, hv⟩ := he
    rw [hr, hrepository, hname] at hout
    exact ⟨hrepository, hout, l, hl, hf, hr.trans hrepository, hmode, hname, hv⟩
  · rintro ⟨hrepository, hout, l, hl, hf, hr, hmode, hname, hv⟩
    refine ⟨l, ⟨hl, ⟨⟨⟨hf, hr.trans hrepository.symm⟩, hmode⟩, ?_⟩, n, hn, hname, ?_⟩, ?_⟩
    · rw [hr, hname]
      exact hout
    · rw [hv]
      exact hversion.symm
    · rw [hformat, hrepository, hname, hv]

theorem resourceMetadataVisibility_ok {targets : List LockTarget} {visible : List Bool} (hm : moderator = false)
    (h : resourceMetadataVisibility text db f repository username moderator targets = .ok visible) :
    List.Forall₂ (fun t b => ∃ n, normalizePackageTarget text f repository t.name t.version = .ok n ∧
      (b = true ↔ answerFor text db f repository (viewerID text db username) n)) targets visible := by
  unfold resourceMetadataVisibility at h
  obtain ⟨-, h⟩ := require_bind_ok.1 h
  rw [if_neg (by simp [hm])] at h
  obtain ⟨normalized, hnormalized, h⟩ := bind_ok.1 h
  cases h
  have hall := mapM_ok hnormalized
  rw [List.forall₂_map_right_iff]
  -- every target is looked up among the same rows, so its place in the batch is kept
  refine (List.forall₂_iff_get.2 ⟨hall.length_eq, fun i hi hi' => ?_⟩)
  have hn := (List.forall₂_iff_get.1 hall).2 i hi hi'
  have hmem := List.get_mem normalized ⟨i, hi'⟩
  generalize normalized.get ⟨i, hi'⟩ = n at hn hmem
  refine ⟨n, hn, ?_⟩
  have hformat := (normalizePackageTarget_ok hn).1
  have hown := mem_hidden text db repository (viewerID text db username) hmem hformat
    (.inl rfl)
  have hwhole := mem_hidden text db repository (viewerID text db username) hmem hformat
    (.inr rfl)
  rw [Bool.and_eq_true, Bool.not_eq_true', Bool.not_eq_true', decide_eq_false_iff_not, decide_eq_false_iff_not]
  refine (and_congr (not_congr hown) (not_congr hwhole)).trans ?_
  unfold answerFor ReadLock
  constructor
  · rintro ⟨h1, h2⟩ hrepository ⟨l, hl, hf, hr, hname, hv, hmode⟩
    by_contra hmember
    rcases hv with hv | hv
    · exact h2 ⟨hrepository, hmember, l, hl, hf, hr, hmode, hname, hv⟩
    · exact h1 ⟨hrepository, hmember, l, hl, hf, hr, hmode, hname, hv⟩
  · intro h
    constructor
    · rintro ⟨hrepository, hmember, l, hl, hf, hr, hmode, hname, hv⟩
      exact hmember (h hrepository ⟨l, hl, hf, hr, hname, .inr hv, hmode⟩)
    · rintro ⟨hrepository, hmember, l, hl, hf, hr, hmode, hname, hv⟩
      exact hmember (h hrepository ⟨l, hl, hf, hr, hname, .inl hv, hmode⟩)

theorem resourceMetadataVisibility_moderator {targets : List LockTarget} {visible : List Bool} (hm : moderator = true)
    (h : resourceMetadataVisibility text db f repository username moderator targets = .ok visible) :
    visible = targets.map fun _ => true := by
  unfold resourceMetadataVisibility at h
  obtain ⟨-, h⟩ := require_bind_ok.1 h
  rw [if_pos hm] at h
  cases h
  rfl

theorem mapM_exists {α β ε : Type} {g : α → Except ε β} {l : List α} (h : ∀ a ∈ l, ∃ b, g a = .ok b) :
    ∃ out, l.mapM g = .ok out := by
  induction l with
  | nil => exact ⟨[], rfl⟩
  | cons a l ih =>
    obtain ⟨b, hb⟩ := h a (by simp)
    obtain ⟨bs, hbs⟩ := ih fun a ha => h a (List.mem_cons_of_mem _ ha)
    refine ⟨b :: bs, ?_⟩
    rw [List.mapM_cons, hb, hbs]
    rfl

theorem resourceMetadataVisibility_answers {targets : List LockTarget} :
    (∃ visible, resourceMetadataVisibility text db f repository username moderator targets = .ok visible) ↔
      targets.length ≤ 128 ∧ (moderator = true ∨ ∀ t ∈ targets, ∃ n,
        normalizePackageTarget text f repository t.name
        t.version = .ok n) := by
  constructor
  · rintro ⟨visible, h⟩
    have hlen := (require_bind_ok.1 h).1
    refine ⟨hlen, ?_⟩
    cases hm : moderator with
    | true => exact .inl rfl
    | false =>
      refine .inr fun t ht => ?_
      have hall := resourceMetadataVisibility_ok hm h
      obtain ⟨i, hi, rfl⟩ := List.getElem_of_mem ht
      obtain ⟨n, hn, -⟩ := (List.forall₂_iff_get.1 hall).2 i hi (hall.length_eq ▸ hi)
      exact ⟨n, hn⟩
  · rintro ⟨hlen, h⟩
    unfold resourceMetadataVisibility
    by_cases hm : moderator = true
    · refine ⟨targets.map fun _ => true, require_bind_ok.2 ⟨hlen, ?_⟩⟩
      rw [if_pos hm]
      rfl
    · obtain ⟨normalized, hnormalized⟩ := mapM_exists (h.resolve_left hm)
      exact ⟨_, require_bind_ok.2 ⟨hlen, (if_neg hm).trans (bind_ok.2 ⟨normalized, hnormalized, rfl⟩)⟩⟩

/-- The answers are right if the name of the repository is trimmed, or there is nothing to hide. -/
theorem visibility_iff {targets : List LockTarget} {visible : List Bool}
    (h : resourceMetadataVisibility text db f repository username moderator targets = .ok visible) :
    List.Forall₂ (fun t b => b = true ↔ Inspectable text db f repository username moderator t) targets visible ↔
      moderator = true ∨ text.toLower repository = text.toLower (text.trimSpace repository) ∨
        ∀ t ∈ targets, Inspectable text db f repository username moderator t := by
  cases hm : moderator with
  | true =>
    subst hm
    rw [resourceMetadataVisibility_moderator rfl h, List.forall₂_map_right_iff, List.forall₂_same]
    simp [Inspectable]
  | false =>
    subst hm
    have hall := resourceMetadataVisibility_ok rfl h
    constructor
    · intro hright
      rw [or_iff_not_imp_left, or_iff_not_imp_left]
      intro _ hrepository t ht
      obtain ⟨i, hi, rfl⟩ := List.getElem_of_mem ht
      have hi' : i < visible.length := hall.length_eq ▸ hi
      obtain ⟨n, hn, hanswer⟩ := (List.forall₂_iff_get.1 hall).2 i hi hi'
      refine ((List.forall₂_iff_get.1 hright).2 i hi hi').1 (hanswer.2 fun hr => ?_)
      exact absurd (hr.trans (normalizePackageTarget_ok hn).2) hrepository
    · intro hcond
      refine List.forall₂_iff_get.2 ⟨hall.length_eq, fun i hi hi' => ?_⟩
      obtain ⟨n, hn, hanswer⟩ := (List.forall₂_iff_get.1 hall).2 i hi hi'
      have hrepository := (normalizePackageTarget_ok hn).2
      have hrule := inspectable_iff db username false hn
      rw [hanswer]
      constructor
      · intro ha
        rcases hcond with hcond | hcond | hcond
        · cases hcond
        · refine hrule.2 (.inr ?_)
          by_cases hlock : ReadLock db f n
          · exact .inl (ha (hcond.trans hrepository.symm) hlock)
          · exact .inr hlock
        · exact hcond _ (List.get_mem targets ⟨i, hi⟩)
      · intro hallowed _ hlock
        rcases hrule.1 hallowed with hmod | hmember | hno
        · cases hmod
        · exact hmember
        · exact absurd hlock hno

theorem visibility_independent {targets targets' : List LockTarget} {visible visible' : List Bool}
    (h : resourceMetadataVisibility text db f repository username moderator targets = .ok visible)
    (h' : resourceMetadataVisibility text db f repository username moderator targets' = .ok visible') {i j : Nat}
    {t : LockTarget} (ht : targets[i]? = some t) (ht' : targets'[j]? = some t) : visible[i]? = visible'[j]? := by
  obtain ⟨hi, rfl⟩ := List.getElem?_eq_some_iff.1 ht
  obtain ⟨hj, hsame⟩ := List.getElem?_eq_some_iff.1 ht'
  cases hm : moderator with
  | true =>
    rw [resourceMetadataVisibility_moderator hm h, resourceMetadataVisibility_moderator hm h', List.getElem?_map,
      List.getElem?_map, List.getElem?_eq_getElem hi, List.getElem?_eq_getElem hj]
    rfl
  | false =>
    have hall := resourceMetadataVisibility_ok hm h
    have hall' := resourceMetadataVisibility_ok hm h'
    have hi' : i < visible.length := hall.length_eq ▸ hi
    have hj' : j < visible'.length := hall'.length_eq ▸ hj
    obtain ⟨n, hn, ha⟩ := (List.forall₂_iff_get.1 hall).2 i hi hi'
    obtain ⟨n', hn', ha'⟩ := (List.forall₂_iff_get.1 hall').2 j hj hj'
    simp only [List.get_eq_getElem] at hn hn' ha ha'
    rw [hsame, hn] at hn'
    cases hn'
    rw [List.getElem?_eq_getElem hi', List.getElem?_eq_getElem hj', Option.some_inj, Bool.eq_iff_iff, ha, ha']

end Rules

/-! ### Changes -/

/-- The locks of a source on a target, and the versions captured with them. -/
def locksOf (db : LockDB) (t : LockTarget) (source : LockSource) : List LockRow × List CapturedVersion :=
  (db.locks.rows.filter fun l => l.target = t && l.source = source,
    db.captured.filter fun v => v.lockID = resourceLockID t && v.source = source)

/-- No lock has changed but those of a source on a target. -/
def OnlyLocksOf (t : LockTarget) (source : LockSource) (db db' : LockDB) : Prop :=
  ∀ u s, (u, s) ≠ (t, source) → locksOf db' u s = locksOf db u s

section Changes
variable {text : Text} {answers : Answers} {db db' : LockDB} {target t : LockTarget} {source : LockSource}
    {actor session : String}

theorem filter_filter_of_imp {α : Type} {p q : α → Bool} {l : List α} (h : ∀ a ∈ l, p a = true → q a = true) :
    (l.filter q).filter p = l.filter p := by
  rw [List.filter_filter]
  refine List.filter_congr fun a ha => ?_
  cases hp : p a with
  | true => simp [h a ha hp]
  | false => simp

theorem key_ne {l : LockRow} {u : LockTarget} {s : LockSource} (hne : (u, s) ≠ (t, source))
    (hl : l.target = u ∧ l.source = s) :
    l.key ≠ (resourceLockID t, source) := by
  obtain ⟨rfl, rfl⟩ := hl
  intro h
  obtain ⟨hid, hsource⟩ := Prod.mk.inj h
  exact hne (by rw [resourceLockID_inj hid, hsource])

theorem delete_locks {u : LockTarget} {s : LockSource} (hne : (u, s) ≠ (t, source)) :
    ((db.locks.delete fun l => l.key = (resourceLockID t, source)).rows.filter fun l => l.target = u && l.source = s) =
      db.locks.rows.filter fun l => l.target = u && l.source = s := by
  rw [Table.rows_delete]
  refine filter_filter_of_imp fun l _ hl => ?_
  rw [Bool.and_eq_true, decide_eq_true_eq, decide_eq_true_eq] at hl
  simpa using key_ne hne hl

theorem delete_captured {u : LockTarget} {s : LockSource} (hne : (u, s) ≠ (t, source)) :
    ((db.captured.filter fun v => !(v.lockID = resourceLockID t && v.source = source)).filter fun v =>
        v.lockID = resourceLockID u && v.source = s) =
      db.captured.filter fun v => v.lockID = resourceLockID u && v.source = s := by
  refine filter_filter_of_imp fun v _ hv => ?_
  rw [Bool.and_eq_true, decide_eq_true_eq, decide_eq_true_eq] at hv
  obtain ⟨hid, rfl⟩ := hv
  rw [Bool.not_eq_true', Bool.and_eq_false_iff, decide_eq_false_iff_not, decide_eq_false_iff_not, ← not_and_or, hid]
  rintro ⟨h, rfl⟩
  exact hne (by rw [resourceLockID_inj h])

theorem setDockerLockVersions_other (h : setDockerLockVersions text answers db t source = .ok db') :
    OnlyLocksOf t source db db' ∧ db'.locks = db.locks := by
  unfold setDockerLockVersions at h
  split at h
  · cases h
    exact ⟨fun u s _ => rfl, rfl⟩
  · obtain ⟨-, h⟩ := require_bind_ok.1 h
    dsimp only at h
    split at h
    · cases h
      refine ⟨fun u s hne => ?_, rfl⟩
      exact Prod.ext rfl (delete_captured hne)
    · obtain ⟨seen, -, h⟩ := bind_ok.1 h
      cases h
      refine ⟨fun u s hne => Prod.ext rfl ?_, rfl⟩
      have hnew : (((seen.filter (· ≠ t.version)).map fun digest =>
        (⟨resourceLockID t, source, digest⟩ : CapturedVersion)).filter
          fun v => v.lockID = resourceLockID u && v.source = s) = [] := by
        rw [List.filter_eq_nil_iff]
        intro v hv hmine
        obtain ⟨digest, -, rfl⟩ := List.mem_map.1 hv
        rw [Bool.and_eq_true, decide_eq_true_eq, decide_eq_true_eq] at hmine
        obtain ⟨hid, rfl⟩ := hmine
        exact hne (by rw [resourceLockID_inj hid])
      show List.filter _ (_ ++ _) = _
      rw [List.filter_append, delete_captured hne, hnew, List.append_nil]
      rfl

theorem setResourceLock_other {lock : LockRow} (h : setResourceLock text answers db lock actor session = .ok db') :
    ∃ t, normalizeResourceLockTarget text lock.target = .ok t ∧ OnlyLocksOf t lock.source db db' := by
  obtain ⟨-, h⟩ := require_bind_ok.1 h
  obtain ⟨reasonText, -, h⟩ := bind_ok.1 h
  obtain ⟨-, h⟩ := require_bind_ok.1 h
  obtain ⟨t, ht, h⟩ := bind_ok.1 h
  obtain ⟨-, -, h⟩ := bind_ok.1 h
  obtain ⟨-, -, h⟩ := bind_ok.1 h
  obtain ⟨db₁, hcapture, h⟩ := bind_ok.1 h
  obtain ⟨locks, hinsert, h⟩ := bind_ok.1 h
  cases h
  obtain ⟨hcaptured, hlocks⟩ := setDockerLockVersions_other hcapture
  obtain ⟨-, hrows⟩ := Table.insert_ok hinsert
  refine ⟨t, ht, fun u s hne => Prod.ext ?_ ?_⟩
  · show locks.rows.filter _ = _
    rw [hrows, List.filter_append, hlocks]
    have hown : (List.filter (fun l : LockRow => l.target = u && l.source = s) [{ lock with target := t, reasonText }]) =
        [] := by
      rw [List.filter_eq_nil_iff]
      intro l hl hmine
      rw [List.mem_singleton.1 hl, Bool.and_eq_true, decide_eq_true_eq, decide_eq_true_eq] at hmine
      exact hne (by rw [← hmine.1, ← hmine.2])
    rw [hown, List.append_nil]
    exact delete_locks hne
  · show (locksOf db₁ u s).2 = _
    rw [hcaptured u s hne]

theorem deleteResourceLock_other (h : deleteResourceLock text answers db target source actor session = .ok db') :
    ∃ t, normalizeResourceLockTarget text target = .ok t ∧ OnlyLocksOf t source db db' := by
  obtain ⟨t, ht, h⟩ := bind_ok.1 h
  obtain ⟨-, -, h⟩ := bind_ok.1 h
  obtain ⟨-, -, h⟩ := bind_ok.1 h
  cases h
  exact ⟨t, ht, fun u s hne => Prod.ext (delete_locks hne) (delete_captured hne)⟩

end Changes

/-! ### A page of packages -/

/-- A page shows what the locks of its packages allow, each target by itself, and a change of a lock concerns no other. -/
theorem visibility_per_target (text : Text) (db : LockDB) (f : PackageFormat) (repository username : String)
    (moderator : Bool) (targets : List LockTarget) :
    ((∃ visible, resourceMetadataVisibility text db f repository username moderator targets = .ok visible) ↔
      targets.length ≤ 128 ∧
        (moderator = true ∨ ∀ t ∈ targets, ∃ n, normalizePackageTarget text f repository t.name t.version = .ok n))
          ∧ (∀ visible, resourceMetadataVisibility text db f repository username moderator targets = .ok visible →
      (List.Forall₂ (fun t b => b = true ↔ Inspectable text db f repository username moderator t) targets visible ↔
        moderator = true ∨ text.toLower repository = text.toLower (text.trimSpace repository) ∨
          ∀ t ∈ targets, Inspectable text db f repository username moderator t) ∧
      ∀ targets' visible', resourceMetadataVisibility text db f repository username moderator targets' = .ok visible' →
        ∀ (i j : Nat) (t : LockTarget), targets[i]? = some t → targets'[j]? = some t → visible[i]? = visible'[j]?) ∧
    (∀ answers db' lock actor session, setResourceLock text answers db lock actor session = .ok db' →
      ∃ t, normalizeResourceLockTarget text lock.target = .ok t ∧ OnlyLocksOf t lock.source db db') ∧
    ∀ answers db' target source actor session, deleteResourceLock text answers db target source actor session = .ok db' →
      ∃ t, normalizeResourceLockTarget text target = .ok t ∧ OnlyLocksOf t source db db' := by
  refine ⟨resourceMetadataVisibility_answers, fun visible h => ⟨visibility_iff h, ?_⟩, ?_, ?_⟩
  · intro targets' visible' h' i j t hi hj
    exact visibility_independent h h' hi hj
  · intro answers db' lock actor session h
    exact setResourceLock_other h
  · intro answers db' target source actor session h
    exact deleteResourceLock_other h

/-- The text functions on ASCII. -/
def asciiText : Text :=
  ⟨⟨Maven.lower, Maven.trimSpace, fun _ => true, fun _ => ""⟩, fun a b => Maven.lower a == Maven.lower b, fun c =>
    c.toNat < 32, some⟩

def serde : LockTarget := ⟨.package .cargo, "crates", "serde", ""⟩

def serdeLock : LockRow := ⟨serde, .manual, .read, .trojan, "", 1⟩

/-- A package with a read lock. -/
def trojanDB : LockDB where
  locks := ⟨[serdeLock], by simp⟩
  captured := []
  packages _ := ⟨[⟨"crates", "serde", ""⟩], by simp⟩
  member _ _ _ _ := false
  teamMember _ _ := false
  profile _ := none
  manifests := []

/-- A batch of two targets, of which guests see one. -/
theorem visibility_per_target_serde :
    List.Forall₂ (fun t b => b = true ↔ Inspectable asciiText trojanDB .cargo "crates" "guest" false t)
      [⟨.package .cargo, "", "Serde", "1.0.0"⟩, ⟨.package .cargo, "", "rand", ""⟩] [false, true] :=
  (((visibility_per_target asciiText trojanDB .cargo "crates" "guest" false
    [⟨.package .cargo, "", "Serde", "1.0.0"⟩, ⟨.package .cargo, "", "rand", ""⟩]).2.1 [false, true] (by decide)).1).2
      (.inr (.inl (by decide)))

/-- In a repository whose name starts with a blank the locks are looked for under another name than they are kept under. -/
theorem visibility_untrimmed :
    resourceMetadataVisibility asciiText trojanDB .cargo " crates" "guest" false [serde] = .ok [true] ∧
      (∃ locks, getResourceLocks asciiText trojanDB .cargo " crates" "serde" "" false = .ok locks ∧
        readLocked locks = true) ∧ ¬Inspectable asciiText trojanDB .cargo " crates" "guest" false serde := by
  have hn : normalizePackageTarget asciiText .cargo " crates" "serde" "" = .ok serde := by decide
  have hlocks : getResourceLocks asciiText trojanDB .cargo " crates" "serde" "" false = .ok [serdeLock.lock false] := by
    decide
  refine ⟨by decide, ⟨_, hlocks, by decide⟩, ?_⟩
  rintro (h | ⟨n, hn', hmember | ⟨locks, h, hread⟩⟩)
  · cases h
  · obtain ⟨p, -, h | h⟩ := hmember <;> cases h
  · rw [show serde.name = "serde" from rfl, show serde.version = "" from rfl, hlocks] at h
    cases h
    exact absurd hread (by decide)

end Renop.Locks
