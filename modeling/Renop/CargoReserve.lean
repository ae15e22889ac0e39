import Renop.CargoSteps
import Renop.CargoYank
import Renop.ReviewInv

/-!
# Reserved crate names

The first publication of a crate in a repository with a review policy creates no package, only a pending review. Until
the review is decided its requester should have the name for himself: `pendingPublicationReservation` looks for other
pending reviews of the crate. It looks for the normalized name among the names as written.
-/

namespace Renop.Cargo

open Sql Interleave

/-! ### Names -/

section Names
variable {text : Text} {lib : IndexLib}

theorem utf8ByteSize_ofList_cons (c : Char) (cs : List Char) :
    (String.ofList (c :: cs)).utf8ByteSize = c.utf8Size + (String.ofList cs).utf8ByteSize := by
  have h : String.ofList (c :: cs) = String.singleton c ++ String.ofList cs := by
    apply String.toList_injective
    simp
  rw [h, String.utf8ByteSize_append, String.utf8ByteSize_singleton]

theorem truncateUTF8_eq {cs : List Char} {n : Nat} (h : (String.ofList cs).utf8ByteSize ≤ n) : truncateUTF8 cs n = cs := by
  induction cs generalizing n with
  | nil => rfl
  | cons c cs ih =>
    rw [utf8ByteSize_ofList_cons] at h
    unfold truncateUTF8
    rw [if_pos (by omega), ih (by omega)]

theorem sanitizeInputString_eq {s : String} {n : Nat} (hp : Printable s) (hn : s.utf8ByteSize ≤ n) :
    sanitizeInputString s n = s := by
  have hcontrol : sanitizeControlBytes s = s := by
    unfold sanitizeControlBytes
    rw [List.filter_eq_self.2, String.ofList_toList]
    intro c hc
    obtain ⟨hlow, hhigh⟩ := hp c hc
    simp only [Bool.and_eq_true, Bool.or_eq_true, decide_eq_true_eq]
    omega
  unfold sanitizeInputString
  dsimp only
  rw [hcontrol]
  split
  · rw [truncateUTF8_eq (by rwa [String.ofList_toList]), String.ofList_toList]
  · rfl

theorem sanitized_eq (hlib : lib.Lawful text) {s : String} {n : Nat} (hp : Printable s) (hn : s.utf8ByteSize ≤ n) :
    sanitized text s n = s := by
  unfold sanitized
  rw [hlib.trimSpace_printable s hp, sanitizeInputString_eq hp hn]

theorem validateCrateName_printable {name : String} (h : validateCrateName text name = true) :
    Printable name ∧ name.utf8ByteSize ≤ 64 := by
  have halpha : ∀ c : Char, isASCIIAlpha c = true → 33 ≤ c.toNat ∧ c.toNat < 127 := by
    intro c hc
    simp only [isASCIIAlpha, Bool.or_eq_true, Bool.and_eq_true, decide_eq_true_eq, Char.le_def, UInt32.le_iff_toNat_le] at hc
    have : c.toNat = c.val.toNat := rfl
    simp only [Char.reduceVal, UInt32.reduceToNat] at hc
    omega
  unfold validateCrateName at h
  split at h
  · cases h
  · rename_i c cs hlist
    simp only [Bool.and_eq_true, decide_eq_true_eq, List.all_eq_true, Bool.or_eq_true] at h
    obtain ⟨⟨⟨hsize, hfirst⟩, hrest⟩, -⟩ := h
    refine ⟨fun d hd => ?_, hsize⟩
    rw [hlist, List.mem_cons] at hd
    rcases hd with rfl | hd
    · exact halpha d hfirst
    · rcases hrest d hd with ((hd | hd) | rfl) | rfl
      · exact halpha d hd
      · simp only [Char.isDigit, Bool.and_eq_true, decide_eq_true_eq, UInt32.le_iff_toNat_le] at hd
        have : d.toNat = d.val.toNat := rfl
        simp only [Char.reduceVal, UInt32.reduceToNat] at hd
        omega
      · decide
      · decide

/-- `strings.ToLower` of plain ASCII. -/
def Text.LowersASCII (text : Text) : Prop := ∀ s, Printable s → text.toLower s = String.ofList (s.toList.map Char.toLower)

theorem Printable.utf8ByteSize {s : String} (h : Printable s) : s.utf8ByteSize = s.toList.length := by
  have hsize : ∀ cs : List Char, (∀ c ∈ cs, 33 ≤ c.toNat ∧ c.toNat < 127) → (String.ofList cs).utf8ByteSize =
      cs.length := by
    intro cs
    induction cs with
    | nil => intro _; rfl
    | cons c cs ih =>
      intro hcs
      have hc : c.utf8Size = 1 := by
        have hnat : c.toNat = c.val.toNat := rfl
        have := (hcs c List.mem_cons_self).2
        rw [Char.utf8Size_eq_one_iff, UInt32.le_iff_toNat_le]
        show c.val.toNat ≤ 127
        omega
      rw [utf8ByteSize_ofList_cons, hc, ih fun d hd => hcs d (List.mem_cons_of_mem _ hd), List.length_cons]
      omega
  have := hsize s.toList h
  rwa [String.ofList_toList] at this

theorem toLower_printable {c : Char} (h : 33 ≤ c.toNat ∧ c.toNat < 127) :
    33 ≤ c.toLower.toNat ∧ c.toLower.toNat < 127 := by
  have hnat : ∀ d : Char, d.toNat = d.val.toNat := fun _ => rfl
  rw [hnat] at h ⊢
  delta Char.toLower
  split
  · rename_i hup
    simp only [UInt32.le_iff_toNat_le, ge_iff_le, Char.reduceVal, UInt32.reduceToNat] at hup
    simp only [UInt32.toNat_add, Char.reduceVal, UInt32.reduceSub, UInt32.reduceToNat]
    omega
  · exact h

theorem normalizeCrateName_printable (hlib : lib.Lawful text) (hlower : text.LowersASCII) {name : String}
    (hp : Printable name) : Printable (normalizeCrateName text name) ∧
      (normalizeCrateName text name).utf8ByteSize = name.utf8ByteSize := by
  have hprintable : Printable (normalizeCrateName text name) := by
    intro d hd
    unfold normalizeCrateName at hd
    rw [hlib.trimSpace_printable name hp, hlower name hp, String.toList_ofList, String.toList_ofList, List.map_map,
      List.mem_map] at hd
    obtain ⟨c, hc, rfl⟩ := hd
    simp only [Function.comp_apply]
    split
    · decide
    · exact toLower_printable (hp c hc)
  refine ⟨hprintable, ?_⟩
  rw [hprintable.utf8ByteSize, hp.utf8ByteSize]
  unfold normalizeCrateName
  rw [hlib.trimSpace_printable name hp, hlower name hp, String.toList_ofList, String.toList_ofList, List.length_map,
    List.length_map]

end Names

/-! ### The lookup -/

section Lookup
variable {env : Env} {reviews : Review.ReviewDB}

theorem laterFirst_total (t u : Review.ReviewTask) : laterFirst t u ∨ laterFirst u t := by
  unfold laterFirst
  rcases Int.lt_trichotomy t.createdAt u.createdAt with h | h | h
  · exact .inr (.inl h)
  · rcases String.le_total t.id u.id with hid | hid
    · exact .inr (.inr ⟨h, hid⟩)
    · exact .inl (.inr ⟨h.symm, hid⟩)
  · exact .inl (.inl h)

theorem laterFirst_trans {t u v : Review.ReviewTask} (h : laterFirst t u) (h' : laterFirst u v) : laterFirst t v := by
  unfold laterFirst at h h' ⊢
  rcases h with h | ⟨h, hid⟩
  · left
    rcases h' with h' | ⟨h', -⟩
    · omega
    · omega
  · rcases h' with h' | ⟨h', hid'⟩
    · left
      omega
    · exact .inr ⟨h'.trans h, String.le_trans hid' hid⟩

instance : Std.Total laterFirst := ⟨laterFirst_total⟩

instance : IsTrans Review.ReviewTask laterFirst := ⟨fun _ _ _ => laterFirst_trans⟩

theorem mem_latestVersions {t : Review.ReviewTask} {seen : List String} {xs ys : List Review.ReviewTask}
    (hseen : t.resourceVersion ∉ seen) (hfirst : ∀ x ∈ xs, x.resourceVersion ≠ t.resourceVersion) :
    t ∈ latestVersions seen (xs ++ t :: ys) := by
  induction xs generalizing seen with
  | nil =>
    simp [latestVersions, hseen]
  | cons x xs ih =>
    have hrest := fun y hy => hfirst y (List.mem_cons_of_mem _ hy)
    rw [List.cons_append]
    unfold latestVersions
    split
    · exact ih hseen hrest
    · refine List.mem_cons_of_mem _ (ih ?_ hrest)
      rw [List.mem_cons, not_or]
      exact ⟨(hfirst x List.mem_cons_self).symm, hseen⟩

theorem mem_listed {t : Review.ReviewTask} {rows : List Review.ReviewTask} (ht : t ∈ rows)
    (hnewest : ∀ u ∈ rows, u ≠ t → laterFirst u t → u.resourceVersion ≠ t.resourceVersion)
    (hfew : (rows.filter fun u => u ≠ t ∧ laterFirst u t).length < Review.maxPublicationReviewFiles) :
    t ∈ latestVersions [] ((rows.insertionSort laterFirst).take Review.maxPublicationReviewFiles) := by
  have hperm := List.perm_insertionSort laterFirst rows
  have hsorted := List.pairwise_insertionSort laterFirst rows
  obtain ⟨xs, ys, heq, hfresh⟩ := List.eq_append_cons_of_mem (hperm.mem_iff.2 ht)
  rw [heq] at hperm hsorted ⊢
  have hlater : ∀ x ∈ xs, x ≠ t ∧ laterFirst x t := by
    intro x hx
    refine ⟨fun h => hfresh (h ▸ hx), ?_⟩
    exact (List.pairwise_append.1 hsorted).2.2 x hx t List.mem_cons_self
  have hlength : xs.length < Review.maxPublicationReviewFiles := by
    refine Nat.lt_of_le_of_lt ?_ hfew
    have hfilter := (hperm.filter fun u => u ≠ t ∧ laterFirst u t).length_eq
    rw [List.filter_append, List.length_append, List.filter_eq_self.2 (by simpa using hlater)] at hfilter
    omega
  have htake : (xs ++ t :: ys).take Review.maxPublicationReviewFiles =
      xs ++ t :: ys.take (Review.maxPublicationReviewFiles - xs.length - 1) := by
    rw [List.take_append, List.take_of_length_le (by omega)]
    have : Review.maxPublicationReviewFiles - xs.length = (Review.maxPublicationReviewFiles - xs.length - 1) + 1 := by omega
    rw [this, List.take_succ_cons, Nat.add_sub_cancel]
  rw [htake]
  refine mem_latestVersions (by simp) fun x hx => ?_
  exact hnewest x (hperm.mem_iff.1 (List.mem_append_left _ hx)) (hlater x hx).1 (hlater x hx).2

theorem reservedName?_ok {userID name name' : String} {tasks : List Review.ReviewTask}
    (h : reservedName? env reviews userID name tasks = .ok name') :
    ∀ t ∈ tasks, t.status = .pending → t.requestedByID = userID := by
  induction tasks generalizing name with
  | nil => simp
  | cons task tasks ih =>
    unfold reservedName? at h
    split at h
    · rename_i hs
      exact List.forall_mem_cons.2 ⟨fun hp => absurd hp hs, ih h⟩
    · obtain ⟨hown, h⟩ := require_bind_ok.1 h
      obtain ⟨payload, -, h⟩ := bind_ok.1 h
      obtain ⟨-, h⟩ := require_bind_ok.1 h
      exact List.forall_mem_cons.2 ⟨fun _ => hown, ih h⟩

end Lookup

/-! ### Pending crates -/

section Reserve
variable (env : Env) (repo : Repo)

/-- A crate that waits for a review in the repository. -/
structure PendingCrate (w : World) (t : Review.ReviewTask) : Prop where
  row : t ∈ w.reviews.tasks.rows
  kind : t.kind = .publication
  type : t.resourceType = .cargoPackage
  repository : t.repository = Review.sanitizeMavenRepository env.text repo.name
  status : t.status = .pending

/-- All pending reviews of a crate that does not exist yet are one user's. -/
def Reserved (w : World) : Prop :=
  ∀ t u, PendingCrate env repo w t → PendingCrate env repo w u →
    normalizeCrateName env.text t.resourceName = normalizeCrateName env.text u.resourceName →
    w.package? env repo.name (normalizeCrateName env.text t.resourceName) = none → t.requestedByID = u.requestedByID

/-- The rows that `ListPublicationReviews` selects. -/
def World.reviewsNamed (w : World) (name : String) : List Review.ReviewTask :=
  w.reviews.tasks.rows.filter fun t => t.kind = .publication ∧ t.repository = Review.sanitizeMavenRepository env.text
    repo.name ∧ t.resourceType = .cargoPackage ∧ t.resourceName = name

/-- A pending review under the normalized name of its crate, the latest of its version and among the latest of the name. -/
structure Findable (w : World) (t : Review.ReviewTask) : Prop where
  pending : PendingCrate env repo w t
  normalized : normalizeCrateName env.text t.resourceName = t.resourceName
  newest : ∀ u ∈ w.reviewsNamed env repo t.resourceName, u ≠ t → laterFirst u t →
    u.resourceVersion ≠ t.resourceVersion
  recent : ((w.reviewsNamed env repo t.resourceName).filter fun u => u ≠ t ∧ laterFirst u t).length <
    Review.maxPublicationReviewFiles

/-- A pending review of the crate of the request, by another user. -/
structure Rival (w : World) (req : PublishRequest) (t : Review.ReviewTask) : Prop where
  pending : PendingCrate env repo w t
  name : normalizeCrateName env.text t.resourceName = normalizeCrateName env.text req.name
  other : w.userID env req.user.username ≠ some t.requestedByID

/-- If another user waits for the crate, one such review can be found. -/
def Noticed (w : World) (req : PublishRequest) : Prop :=
  (∃ t, Rival env repo w req t) → ∃ t, Rival env repo w req t ∧ Findable env repo w t

/-- A name as `NormalizeUsername` returns it. -/
def canonicalUsername (username : String) : Bool :=
  4 ≤ username.utf8ByteSize && username.utf8ByteSize ≤ 18 &&
    username.toList.all fun c => ('a' ≤ c && c ≤ 'z') || c.isDigit || c = '_'

variable {env repo}

theorem pendingPublicationReservation_refuses (hlib : env.lib.Lawful env.text) (hlower : env.text.LowersASCII) {w : World}
    {req : PublishRequest} (hname : validateCrateName env.text req.name = true) {t : Review.ReviewTask}
    (hrival : Rival env repo w req t) (hfind : Findable env repo w t) {r : Option String} :
    pendingPublicationReservation env w repo.name (normalizeCrateName env.text req.name) req.user.username ≠ .ok r := by
  intro h
  obtain ⟨hprintable, hsize⟩ := validateCrateName_printable hname
  obtain ⟨hnorm, hnormsize⟩ := normalizeCrateName_printable hlib hlower hprintable
  unfold pendingPublicationReservation at h
  obtain ⟨tasks, hlist, h⟩ := bind_ok.1 h
  have ht : t ∈ tasks := by
    unfold listPublicationReviews at hlist
    dsimp only at hlist
    obtain ⟨-, hlist⟩ := require_bind_ok.1 hlist
    cases hlist
    rw [sanitized_eq hlib hnorm (by omega), ← hrival.name, hfind.normalized]
    refine mem_listed ?_ hfind.newest hfind.recent
    rw [List.mem_filter]
    exact ⟨hrival.pending.row, by simp [hrival.pending.kind, hrival.pending.repository, hrival.pending.type]⟩
  have hsome : (tasks.all fun t => t.status ≠ .pending) = false := by
    rw [List.all_eq_false]
    exact ⟨t, ht, by simp [hrival.pending.status]⟩
  rw [if_neg (by simpa using hsome)] at h
  obtain ⟨userID, huser, h⟩ := bind_ok.1 h
  obtain ⟨-, h⟩ := require_bind_ok.1 h
  obtain ⟨name, hreserved, -⟩ := bind_ok.1 h
  have hown := reservedName?_ok hreserved t ht hrival.pending.status
  exact hrival.other (hown ▸ orError_ok.1 huser)

/-! ### Requesters -/

theorem canonicalUsername_eq (hlower : env.text.LowersASCII) {username : String} (h : canonicalUsername username = true) :
    Printable username ∧ username.utf8ByteSize ≤ 18 ∧ env.text.toLower username = username ∧ username ≠ "" := by
  unfold canonicalUsername at h
  simp only [Bool.and_eq_true, decide_eq_true_eq, List.all_eq_true, Bool.or_eq_true] at h
  obtain ⟨⟨hmin, hmax⟩, hchars⟩ := h
  have hchar : ∀ c ∈ username.toList, (33 ≤ c.toNat ∧ c.toNat < 127) ∧ c.toLower = c := by
    intro c hc
    have hnat : ∀ d : Char, d.toNat = d.val.toNat := fun _ => rfl
    rcases hchars c hc with (hc | hc) | rfl
    · simp only [Char.le_def, UInt32.le_iff_toNat_le, Char.reduceVal, UInt32.reduceToNat] at hc
      refine ⟨by rw [hnat]; omega, ?_⟩
      delta Char.toLower
      rw [dif_neg]
      simp only [UInt32.le_iff_toNat_le, ge_iff_le, Char.reduceVal, UInt32.reduceToNat]
      omega
    · simp only [Char.isDigit, Bool.and_eq_true, decide_eq_true_eq, ge_iff_le, UInt32.le_iff_toNat_le, Char.reduceVal,
        UInt32.reduceToNat] at hc
      refine ⟨by rw [hnat]; omega, ?_⟩
      delta Char.toLower
      rw [dif_neg]
      simp only [UInt32.le_iff_toNat_le, ge_iff_le, Char.reduceVal, UInt32.reduceToNat]
      omega
    · exact ⟨by decide, by decide⟩
  have hp : Printable username := fun c hc => (hchar c hc).1
  refine ⟨hp, hmax, ?_, ?_⟩
  · rw [hlower username hp, List.map_congr_left fun c hc => (hchar c hc).2, List.map_id', String.ofList_toList]
  · rintro rfl
    exact absurd hmin (by decide)

theorem userID_of_access (hlib : env.lib.Lawful env.text) (hlower : env.text.LowersASCII) {w : World}
    {username actorID : String} (hcanonical : canonicalUsername username = true)
    (h : (w.access env).userID (Review.sanitizeMavenUsername env.text username) = some actorID) :
    w.userID env username = some actorID := by
  obtain ⟨hp, hsize, hlow, hne⟩ := canonicalUsername_eq hlower hcanonical
  have hmaven : Review.sanitizeMavenUsername env.text username = username := by
    unfold Review.sanitizeMavenUsername
    rw [hlib.trimSpace_printable username hp, hlow, sanitizeInputString_eq hp (by omega)]
  have hcargo : sanitizeCargoUsername env.text username = username := by
    unfold sanitizeCargoUsername
    rw [sanitized_eq hlib hp (by unfold maxTokenNameLen; omega), hlow]
  have huser : userIDForUsernameTx env.text w.db username = .ok actorID := by
    rw [hmaven] at h
    unfold World.access at h
    dsimp only at h
    cases hid : userIDForUsernameTx env.text w.db username with
    | error e => rw [hid] at h; cases h
    | ok id => rw [hid] at h; cases h; rfl
  unfold userIDForUsernameTx at huser
  dsimp only at huser
  rw [hlib.trimSpace_printable username hp, hlow] at huser
  obtain ⟨profile, hprofile, huser⟩ := bind_ok.1 huser
  obtain ⟨-, huser⟩ := require_bind_ok.1 huser
  cases huser
  unfold World.userID
  dsimp only
  rw [hcargo, if_neg hne, orError_ok.1 hprofile]
  rfl

theorem createReview_tasks {w : World} {req : PublishRequest} {p : Publication} {publishedVersions : Bool}
    {reviews : Review.ReviewDB} {result : Review.PublicationResult}
    (h : createReview env repo req p publishedVersions w = .ok (reviews, result)) :
    reviews.tasks.rows = w.reviews.tasks.rows ∨ ∃ task :
      Review.ReviewTask, reviews.tasks.rows = w.reviews.tasks.rows ++ [task] ∧
      task.resourceName = sanitized env.text p.package.name 512 ∧
      (w.access env).userID (Review.sanitizeMavenUsername env.text p.version.publisher) = some task.requestedByID := by
  rcases Review.createOrUpdatePublicationReview_tasks h with hsame | ⟨q, actorID, hq, hactor, hrows⟩
  · exact .inl hsame
  · unfold Review.normalizePublication at hq
    obtain ⟨policy, -, hq⟩ := bind_ok.1 hq
    obtain ⟨type, -, hq⟩ := bind_ok.1 hq
    obtain ⟨reviewTeam, -, hq⟩ := bind_ok.1 hq
    obtain ⟨targetTeam, -, hq⟩ := bind_ok.1 hq
    obtain ⟨files, -, hq⟩ := bind_ok.1 hq
    obtain ⟨-, hq⟩ := require_bind_ok.1 hq
    obtain ⟨-, hq⟩ := require_bind_ok.1 hq
    obtain ⟨-, hq⟩ := require_bind_ok.1 hq
    obtain ⟨-, hq⟩ := require_bind_ok.1 hq
    cases hq
    exact .inr ⟨_, hrows, rfl, hactor⟩

/-! ### One request -/

/-- Every package stays, and no pending review is new. -/
structure Settled (w w' : World) : Prop where
  packages : ∀ k, w.db.packages.find? k ≠ none → w'.db.packages.find? k ≠ none
  pending : ∀ t ∈ w'.reviews.tasks.rows, t.status = .pending → t ∈ w.reviews.tasks.rows

theorem Settled.of_untouched {w w' : World} (h : Untouched w w') : Settled w w' :=
  ⟨fun k hk => by rwa [h.db], fun t ht _ => by rwa [h.reviews] at ht⟩

theorem PendingCrate.of_settled {w w' : World} {t : Review.ReviewTask} (h : Settled w w') (ht : PendingCrate env repo w' t) :
    PendingCrate env repo w t :=
  ⟨h.pending t ht.row ht.status, ht.kind, ht.type, ht.repository, ht.status⟩

theorem Settled.absent {w w' : World} (h : Settled w w') {repository name : String}
    (ha : w'.package? env repository name = none) :
    w.package? env repository name = none := by
  by_contra hne
  exact h.packages _ hne ha

theorem Reserved.settled {w w' : World} (hr : Reserved env repo w) (h : Settled w w') : Reserved env repo w' :=
  fun _ _ ht hu hname ha => hr _ _ (ht.of_settled h) (hu.of_settled h) hname (h.absent ha)

theorem recordCargoPublication_keeps {db db' : DB} {pkg : CargoPackage} {version : CargoVersion} {username newID : String}
    (h : recordCargoPublication env.text db pkg version username newID = .ok db') (k : Key)
    (hk : db.packages.find? k ≠ none) :
    db'.packages.find? k ≠ none := by
  obtain ⟨v, hadds, -⟩ := recordCargoPublication_adds h
  obtain ⟨p, hp⟩ := Option.ne_none_iff_exists'.1 hk
  have hkept := hadds.kept k p.archived (by rw [DB.archived?, hp]; rfl)
  intro hnone
  rw [DB.archived?, hnone] at hkept
  cases hkept

theorem rollbackCargoPublicationReview_keeps {db db₁ db' : DB} {repository normalizedName version : String}
    (hrecord : ∀ k, db.packages.find? k ≠ none → db₁.packages.find? k ≠ none)
    (h : rollbackCargoPublicationReview env.text db₁ repository normalizedName version
      (db.packages.find? (sanitizeCargoKey env.text repository normalizedName)) = .ok db') (k : Key)
    (hk : db.packages.find? k ≠ none) : db'.packages.find? k ≠ none := by
  unfold rollbackCargoPublicationReview at h
  dsimp only at h
  obtain ⟨-, h⟩ := require_bind_ok.1 h
  obtain ⟨-, h⟩ := require_bind_ok.1 h
  split at h
  · rename_i hnone
    obtain ⟨-, h⟩ := require_bind_ok.1 h
    cases h
    have hne : k ≠ sanitizeCargoKey env.text repository normalizedName := by
      rintro rfl
      exact hk hnone
    have hold := hrecord k hk
    rw [Ne, Table.find?_eq_none] at hold ⊢
    intro hall
    refine hold fun p hp hpk => hall p ?_ hpk
    rw [Table.rows_delete, List.mem_filter]
    exact ⟨hp, by simp [hpk, hne]⟩
  · cases h
    exact find?_updatePackage_ne_none.2 (hrecord k hk)

theorem no_rival (hlib : env.lib.Lawful env.text) (hlower : env.text.LowersASCII) {w : World} {req : PublishRequest}
    {p : Prepared} (hp : Prepared.Of env repo req w p)
    (habsent : w.package? env repo.name (normalizeCrateName env.text req.name) = none) (hnoticed : Noticed env repo w req)
    (t : Review.ReviewTask) : ¬ Rival env repo w req t := by
  intro hrival
  obtain ⟨u, hu, hfind⟩ := hnoticed ⟨t, hrival⟩
  have hvalid := hp.valid
  unfold validatePackage at hvalid
  simp only [Bool.and_eq_true] at hvalid
  have hcheck := (hp.fresh habsent).1
  unfold checkNewPackage at hcheck
  obtain ⟨reserved, hreserved, -⟩ := bind_ok.1 hcheck
  exact pendingPublicationReservation_refuses hlib hlower hvalid.1.1.1 hu hfind hreserved

theorem Reserved.queued (hlib : env.lib.Lawful env.text) (hlower : env.text.LowersASCII) {w w' : World} {req : PublishRequest}
    {p : Prepared} {result : Review.PublicationResult} (hr : Reserved env repo w) (hp : Prepared.Of env repo req w p)
    (hcanonical : canonicalUsername req.user.username = true)
    (hnoticed : w.package? env repo.name (normalizeCrateName env.text req.name) = none → Noticed env repo w req)
    (hcreate : createReview env repo req p.publication p.publishedVersions w = .ok (w'.reviews, result))
    (hdb : w'.db = w.db) : Reserved env repo w' := by
  obtain ⟨m, hpublication⟩ := hp.publication
  have hpackage : ∀ name, w'.package? env repo.name name = w.package? env repo.name name := by
    intro name
    unfold World.package?
    rw [hdb]
  rcases createReview_tasks hcreate with hsame | ⟨task, hrows, hname, hactor⟩
  · exact hr.settled ⟨fun k hk => by rwa [hdb], fun t ht _ => hsame ▸ ht⟩
  · rw [hpublication] at hname hactor
    have hvalid := hp.valid
    unfold validatePackage at hvalid
    simp only [Bool.and_eq_true] at hvalid
    obtain ⟨hprintable, hsize⟩ := validateCrateName_printable hvalid.1.1.1
    have hname : task.resourceName = req.name := hname.trans
      (sanitized_eq hlib hprintable (by show req.name.utf8ByteSize ≤ 512; omega))
    have huser : w.userID env req.user.username = some task.requestedByID := userID_of_access hlib hlower hcanonical hactor
    -- every other pending review of the crate is the requester's as well
    have hold : ∀ t, PendingCrate env repo w' t → normalizeCrateName env.text t.resourceName = normalizeCrateName env.text
      req.name →
        w.package? env repo.name (normalizeCrateName env.text req.name) = none → t.requestedByID = task.requestedByID := by
      intro t ht htname habsent
      have hrow := ht.row
      rw [hrows, List.mem_append, List.mem_singleton] at hrow
      rcases hrow with hrow | rfl
      · by_contra hne
        refine no_rival hlib hlower hp habsent (hnoticed habsent) t ⟨⟨hrow, ht.kind, ht.type, ht.repository, ht.status⟩,
          htname, ?_⟩
        rw [huser]
        exact fun h => hne (Option.some.inj h).symm
      · rfl
    intro t u ht hu htu habsent
    have htrow := ht.row
    have hurow := hu.row
    rw [hrows, List.mem_append, List.mem_singleton] at htrow hurow
    rw [hpackage] at habsent
    rcases htrow with htrow | rfl
    · rcases hurow with hurow | rfl
      · exact hr t u ⟨htrow, ht.kind, ht.type, ht.repository, ht.status⟩
          ⟨hurow, hu.kind, hu.type, hu.repository, hu.status⟩ htu habsent
      · rw [htu, hname] at habsent
        exact hold t ht (by rw [htu, hname]) habsent
    · rw [hname] at habsent htu
      exact (hold u hu htu.symm habsent).symm

theorem wp_publish_reserved (hlib : env.lib.Lawful env.text) (hlower : env.text.LowersASCII)
    {allowed : Step → Bool → Prop} {w : World} {req : PublishRequest} (hr : Reserved env repo w) (hi : Review.Inv w.reviews)
    (hcanonical : canonicalUsername req.user.username = true)
    (hnoticed : w.package? env repo.name (normalizeCrateName env.text req.name) = none → Noticed env repo w req) :
    (publish env repo req).wp allowed (fun _ w' => Reserved env repo w' ∧ Review.Inv w'.reviews) w := by
  refine wp_publish (fun e => ⟨hr, hi⟩) fun p hp => wp_storePublication (fun r w' h => ?_) ?_ ?_ ?_
  · exact ⟨hr.settled (.of_untouched h), h.reviews ▸ hi⟩
  · intro _ result w' hcreate hdb _
    exact ⟨hr.queued hlib hlower hp hcanonical hnoticed hcreate hdb,
      (Review.createOrUpdatePublicationReview_adds hi hcreate).inv⟩
  · intro _ w' hrecord hreviews _
    exact ⟨hr.settled ⟨recordCargoPublication_keeps hrecord, fun t ht _ => hreviews ▸ ht⟩, hreviews ▸ hi⟩
  · intro _ w₁ path hdb hreviews _
    refine wp_rollbackPublication_tables fun r w' hdb' hreviews' e => ?_
    have hdb'' := hdb'.trans hdb
    have hreviews'' := hreviews'.trans hreviews
    exact ⟨hr.settled ⟨fun k hk => by rwa [hdb''], fun t ht _ => hreviews'' ▸ ht⟩, hreviews'' ▸ hi⟩

theorem wp_rollbackApproval_keeps {allowed : Step → Bool → Prop} {w w₁ : World} {task : Review.ReviewTask}
    {a : Approved} (hprevious : a.previous = w.package? env task.repository task.resourceKey)
    (hrecord : ∀ k, w.db.packages.find? k ≠ none → w₁.db.packages.find? k ≠ none)
    {Q : Except ServiceError Unit → World → Prop}
    (hQ : ∀ r w', (∀ k, w.db.packages.find? k ≠ none → w'.db.packages.find? k ≠ none) →
      w'.reviews = w₁.reviews → Q r w') :
    (rollbackApproval env repo task a).wp allowed Q w₁ := by
  have hindex : ∀ (metadata : Except ServiceError Unit) (w₂ : World),
      (∀ k, w.db.packages.find? k ≠ none → w₂.db.packages.find? k ≠ none) → w₂.reviews = w₁.reviews →
      Proc.wp allowed ((rollbackCargoIndexVersion env (cargoIndexPath repo a.publication.package.name) task.resourceVersion
        a.indexExisted).bind fun _ => Proc.ofExcept metadata) Q w₂ := by
    intro metadata w₂ hkeeps hreviews
    rw [Proc.wp_bind]
    refine wp_rollbackCargoIndexVersion_tables fun r w' hdb hreviews' => ?_
    have hkept : ∀ k, w.db.packages.find? k ≠ none → w'.db.packages.find? k ≠ none := fun k hk => by
      rw [hdb]
      exact hkeeps k hk
    cases r with
    | ok _ => exact hQ _ w' hkept (hreviews'.trans hreviews)
    | error e => exact hQ _ w' hkept (hreviews'.trans hreviews)
  unfold rollbackApproval
  refine Proc.wp_attempt_bind (Proc.wp_tell (fun _ => hindex _ w₁ hrecord rfl) (fun w₂ h => ?_) fun e _ =>
    hindex _ w₁ hrecord rfl)
  obtain ⟨db, hdb, hw⟩ := map_ok.1 (mapError_ok.1 h)
  subst hw
  rw [hprevious] at hdb
  exact hindex _ _ (rollbackCargoPublicationReview_keeps hrecord hdb) rfl

theorem wp_decide_settled (env : Env) {allowed : Step → Bool → Prop} {w : World} {d : Decision}
    (hi : Review.Inv w.reviews) :
    (decidePublicationTask env repo d).wp allowed (fun _ w' => Settled w w' ∧ Review.Inv w'.reviews) w := by
  refine wp_decidePublicationTask (fun r w' h => ⟨.of_untouched h, h.reviews ▸ hi⟩) ?_ ?_ ?_
  · intro task files reviews status error w' _ hdecided hreviews hdb _
    subst hreviews
    exact ⟨⟨fun k hk => by rwa [hdb], Review.decideReviewTask_pending hi hdecided⟩,
      (Review.decideReviewTask_effect hi hdecided).1⟩
  · intro task files p out w₁ _ _ hrecord hreviews _
    have hkeeps := recordCargoPublication_keeps hrecord
    refine ⟨fun r reviews status error w' hdecided hreviews' hdb _ => ?_, ?_⟩
    · subst hreviews'
      refine ⟨⟨fun k hk => ?_, Review.decideReviewTask_pending hi hdecided⟩,
        (Review.decideReviewTask_effect hi hdecided).1⟩
      rw [hdb]
      exact hkeeps k hk
    · refine wp_rollbackApproval_keeps rfl hkeeps fun r w' hkept hreviews' e => ?_
      have hsame := hreviews'.trans hreviews
      exact ⟨⟨hkept, fun t ht _ => hsame ▸ ht⟩, hsame ▸ hi⟩
  · intro task files p out _ _
    refine wp_rollbackCargoIndexVersion_tables fun r w' hdb hreviews e => ?_
    exact ⟨⟨fun k hk => by rwa [hdb], fun t ht _ => hreviews ▸ ht⟩, hreviews ▸ hi⟩

end Reserve

/-! ### Runs -/

/-- A request on the repository, with the calls of it that fail. -/
inductive ReviewEvent
  | publish (req : PublishRequest) (fault : Step → Bool)
  | decide (d : Decision) (fault : Step → Bool)

section Runs
variable (env : Env) (repo : Repo)

def ReviewEvent.apply (w : World) : ReviewEvent → World
  | .publish req fault => ((Cargo.publish env repo req).exec fault w).2
  | .decide d fault => ((decidePublicationTask env repo d).exec fault w).2

def afterReviews (w : World) (events : List ReviewEvent) : World := events.foldl (ReviewEvent.apply env repo) w

/-- No publication of a new crate overlooks a rival. -/
def ReviewEvent.Noticed (w : World) : ReviewEvent → Prop
  | .publish req _ => w.package? env repo.name (normalizeCrateName env.text req.name) = none → Cargo.Noticed env repo w req
  | .decide _ _ => True

def AllNoticed (w : World) : List ReviewEvent → Prop
  | [] => True
  | e :: events => e.Noticed env repo w ∧ AllNoticed (e.apply env repo w) events

def ReviewEvent.Canonical : ReviewEvent → Prop
  | .publish req _ => canonicalUsername req.user.username = true
  | .decide _ _ => True

variable {env repo}

theorem Reserved.step (hlib : env.lib.Lawful env.text) (hlower : env.text.LowersASCII) {w : World} {e : ReviewEvent}
    (hr : Reserved env repo w) (hi : Review.Inv w.reviews) (hcanonical : e.Canonical) (hnoticed : e.Noticed env repo w) :
    Reserved env repo (e.apply env repo w) ∧ Review.Inv (e.apply env repo w).reviews := by
  cases e with
  | publish req fault =>
    exact (Proc.wp_exec (Q := fun _ w' => Reserved env repo w' ∧ Review.Inv w'.reviews)).1
      (wp_publish_reserved hlib hlower hr hi hcanonical hnoticed)
  | decide d fault =>
    obtain ⟨hsettled, hi'⟩ := (Proc.wp_exec (Q := fun _ w' => Settled w w' ∧ Review.Inv w'.reviews)).1
      (wp_decide_settled env hi)
    exact ⟨hr.settled hsettled, hi'⟩

theorem Reserved.run (hlib : env.lib.Lawful env.text) (hlower : env.text.LowersASCII) {events : List ReviewEvent} {w : World}
    (hr : Reserved env repo w) (hi : Review.Inv w.reviews) (hcanonical : ∀ e ∈ events, e.Canonical)
    (hnoticed : AllNoticed env repo w events) : Reserved env repo (afterReviews env repo w events) := by
  induction events generalizing w with
  | nil => exact hr
  | cons e events ih =>
    obtain ⟨hr', hi'⟩ := hr.step hlib hlower hi (hcanonical e List.mem_cons_self) hnoticed.1
    exact ih hr' hi' (fun e' he' => hcanonical e' (List.mem_cons_of_mem _ he')) hnoticed.2

end Runs

/-- As long as no publication of a new crate overlooks a rival, a crate that does not exist has the pending reviews of one
user at most; and a user whose rivals can be found is refused. -/
theorem names_reserved (env : Env) (hlib : env.lib.Lawful env.text) (hlower : env.text.LowersASCII) (repo : Repo) (w : World)
    (resources : Table Review.Resource.rowKey) (hstart : w.reviews = Review.noReviews resources) (events : List ReviewEvent)
    (hcanonical : ∀ e ∈ events, e.Canonical) (hnoticed : AllNoticed env repo w events) :
    Reserved env repo (afterReviews env repo w events) ∧
      ∀ req, validateCrateName env.text req.name = true → Noticed env repo (afterReviews env repo w events) req →
        (∃ t, Rival env repo (afterReviews env repo w events) req t) →
        ∀ r, pendingPublicationReservation env (afterReviews env repo w events) repo.name
          (normalizeCrateName env.text req.name) req.user.username ≠ .ok r := by
  have hnone : Reserved env repo w := by
    intro t u ht _ _ _
    have hrow := ht.row
    rw [hstart] at hrow
    cases hrow
  have hi : Review.Inv w.reviews := by
    rw [hstart]
    exact Review.noReviews_inv resources
  refine ⟨hnone.run hlib hlower hi hcanonical hnoticed, fun req hname hseen hrival r => ?_⟩
  obtain ⟨t, ht, hfind⟩ := hseen hrival
  exact pendingPublicationReservation_refuses hlib hlower hname ht hfind

/-! ### Two users on fixed inputs -/

def asciiText : Text := ⟨fun s => String.ofList (s.toList.map Char.toLower), id, fun _ => true, fun _ => ""⟩

def asciiEnv : Env := { plainEnv none with text := asciiText }

def twoUsers : World :=
  { emptyWorld with
    db := .initial ⟨[⟨"u1", "alice"⟩, ⟨"u2", "bobby"⟩], by decide⟩ (fun _ => false) (fun _ _ => none) fun _ _ =>
      none }

def reviewedRepo : Repo := ⟨"crates", .everyVersion, false⟩

def noFault : Step → Bool := fun _ => false

def aliceRequest (name : String) : PublishRequest := { serdeRequest with name, crate := name }

def bobbyRequest : PublishRequest :=
  { serdeRequest with
    user := ⟨"bobby", false⟩, name := "foo-bar", version := "2.0.0", crate := "foo-bar", now := 2, expiresAt := 3
    reviewID := "r2", quotaID := "q2", userID := "u2" }

theorem asciiText_lowers : asciiText.LowersASCII := fun _ _ => rfl

/-- A name in its normalized form is reserved for the first user. -/
theorem names_reserved_normalized :
    Reserved asciiEnv reviewedRepo
      (afterReviews asciiEnv reviewedRepo twoUsers [.publish (aliceRequest "foo-bar") noFault,
        .publish bobbyRequest noFault]) := by
  have hcanonical : ∀ e ∈ [ReviewEvent.publish (aliceRequest "foo-bar") noFault, .publish bobbyRequest noFault],
      e.Canonical := by
    intro e he
    simp only [List.mem_cons, List.not_mem_nil, or_false] at he
    rcases he with rfl | rfl
    · show canonicalUsername "alice" = true
      decide
    · show canonicalUsername "bobby" = true
      decide
  have hrows : ((ReviewEvent.publish (aliceRequest "foo-bar") noFault).apply asciiEnv reviewedRepo
    twoUsers).reviews.tasks.rows =
      [Review.publicationTask "r1" ⟨.everyVersion, .cargoPackage, "crates", "foo-bar", "foo-bar", "1.0.0", "alice", "", "",
          []⟩ "u1" 1] := by
    decide
  refine (names_reserved asciiEnv (plainLib_lawful rfl) asciiText_lowers reviewedRepo twoUsers .empty rfl _ hcanonical
    ⟨fun _ => ?_, fun _ => ?_, trivial⟩).1
  · rintro ⟨t, ht⟩
    exact absurd ht.pending.row (by simp [twoUsers, emptyWorld, Table.empty])
  · rintro ⟨t, ht⟩
    have hrow := ht.pending.row
    rw [hrows, List.mem_singleton] at hrow
    refine ⟨t, ht, ht.pending, ?_, fun u hu hne => ?_, ?_⟩
    · rw [hrow]
      decide
    · refine absurd ?_ hne
      have hu := (List.mem_filter.1 hu).1
      rw [hrows, List.mem_singleton] at hu
      rw [hu, hrow]
    · unfold World.reviewsNamed
      rw [hrows, hrow]
      decide

/-- The review of `foo_bar` is not found when `foo-bar` is published. -/
theorem names_not_reserved :
    (∀ e ∈ [ReviewEvent.publish (aliceRequest "foo_bar") noFault, .publish bobbyRequest noFault], e.Canonical) ∧
    ¬ Reserved asciiEnv reviewedRepo
      (afterReviews asciiEnv reviewedRepo twoUsers [.publish (aliceRequest "foo_bar") noFault,
        .publish bobbyRequest noFault]) := by
  refine ⟨?_, fun h => ?_⟩
  · intro e he
    simp only [List.mem_cons, List.not_mem_nil, or_false] at he
    rcases he with rfl | rfl
    · show canonicalUsername "alice" = true
      decide
    · show canonicalUsername "bobby" = true
      decide
  · have hrows : (afterReviews asciiEnv reviewedRepo twoUsers
        [.publish (aliceRequest "foo_bar") noFault, .publish bobbyRequest noFault]).reviews.tasks.rows =
      [Review.publicationTask "r1" ⟨.everyVersion, .cargoPackage, "crates", "foo-bar", "foo_bar", "1.0.0", "alice", "", "",
        []⟩ "u1" 1, Review.publicationTask "r2" ⟨.everyVersion, .cargoPackage, "crates", "foo-bar", "foo-bar", "2.0.0",
        "bobby", "", "", []⟩ "u2" 2] := by
      decide +kernel
    have hid := h _ _ ⟨by rw [hrows]; exact List.mem_cons_self, rfl, rfl, rfl, rfl⟩
      ⟨by rw [hrows]; exact List.mem_cons_of_mem _ List.mem_cons_self, rfl, rfl, rfl, rfl⟩ (by decide +kernel)
        (by decide +kernel)
    exact absurd hid (by decide)

end Renop.Cargo
