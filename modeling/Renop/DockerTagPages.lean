import Mathlib.Data.String.Basic
import Renop.CargoReserve
import Renop.DockerHandlers
import Renop.MavenNamespace
import Renop.ResourceLockRules
import Renop.Pages

/-!
# Pages of tags

`HandleTagsList` sends the cursor of a next page when a page has as many tags as were asked for. `ListDockerTagsForViewer`
gives 50 where more than 100 are asked for, so such a page never has a next one.
-/

namespace Renop.Docker

open Interleave Pages Sql
open Renop.Locks (asciiText viewerID)
open Renop.SuperTeam (Text)

/-- The names of `HandleTagsList`, and the cursor of its `Link` header. -/
def tagsListResponse (n : Int) (tags : List DockerTag) : List String × Option String :=
  let tagNames := tags.map DockerTag.tag
  (tagNames, if n > 0 ∧ (tagNames.length : Int) ≥ n then tagNames.getLast? else none)

section TagPages
variable (text : Text) (db : DockerDB) (repository imageName username : String) (moderator : Bool)

def tagsPage (n : Int) (last : String) : List String × Option String :=
  tagsListResponse n (listDockerTagsForViewer text db repository imageName last n username moderator)

/-- The rows of the image that the viewer sees. -/
def visibleRows : List DockerTag :=
  let key := sanitizeDockerKey text repository imageName
  db.tags.rows.filter fun t => t.repository = key.1 && t.imageName = key.2 &&
    (moderator || tagVisible db (viewerID text db.lockDB username) t)

/-- The tags that the viewer sees, in increasing order. -/
def visibleTags : List String := ((visibleRows text db repository imageName username moderator).map
    DockerTag.tag).insertionSort (· ≤ ·)

/-- Those after a cursor. -/
def tagsAfter (last : String) : List String :=
  if dockerTag text last = "" then visibleTags text db repository imageName username moderator
  else (visibleTags text db repository imageName username moderator).filter fun tag => dockerTag text last < tag

variable {text db repository imageName username moderator}

/-- What the handler answers is a page of the user it has authorized. -/
theorem handleTagsList_page {env : Env} {fault : Step → Bool} {cred : Credentials} {name last : String} {n : Int}
    {w w' : World} {tags : List DockerTag} (h : Proc.exec fault (handleTagsList env cred name last n) w =
      (.ok (.tags tags), w')) :
    ∃ user : User, tagsListResponse n tags = tagsPage env.text w.db (parseRepositoryAndImage name).1
      (parseRepositoryAndImage name).2 user.username (user.checkModeratePermission (parseRepositoryAndImage name).1) n
        last := by
  cases hname : parseRepositoryAndImage name with
  | mk repoName imageName =>
    simp only [handleTagsList, hname, Proc.bind_eq] at h
    obtain ⟨⟨repo, user⟩, w₁, hauthorized, h⟩ := Proc.exec_bind_ok h
    obtain ⟨_, -, hauthorized⟩ := Proc.exec_ofExcept_bind_ok hauthorized
    obtain ⟨_, -, hauthorized⟩ := Proc.exec_ask_bind_ok hauthorized
    obtain ⟨-, rfl⟩ := Prod.mk.inj hauthorized
    obtain ⟨_, hquery, h⟩ := Proc.exec_ask_bind_ok h
    obtain ⟨hanswer, -⟩ := Prod.mk.inj h
    obtain rfl := Served.tags.inj (Except.ok.inj hanswer)
    exact ⟨user, congrArg (tagsListResponse n) (Except.ok.inj hquery).symm⟩

theorem visibleRows_nodup : ((visibleRows text db repository imageName username moderator).map DockerTag.tag).Nodup := by
  have hrows : (visibleRows text db repository imageName username moderator).Nodup :=
    (List.Nodup.of_map _ db.tags.nodup).filter _
  refine hrows.map_on fun t ht u hu htag => ?_
  obtain ⟨ht, hkey⟩ := List.mem_filter.1 ht
  obtain ⟨hu, hkey'⟩ := List.mem_filter.1 hu
  simp only [Bool.and_eq_true, decide_eq_true_eq] at hkey hkey'
  refine db.tags.eq_of_key ht hu ?_
  rw [DockerTag.key, DockerTag.key, htag, hkey.1.1, hkey.1.2, hkey'.1.1, hkey'.1.2]

theorem insertionSort_lt {l : List String} (h : l.Nodup) : (l.insertionSort (· ≤ ·)).Pairwise (· < ·) := by
  have hle := List.pairwise_insertionSort (· ≤ ·) l
  have hne : (l.insertionSort (· ≤ ·)).Nodup := (List.perm_insertionSort _ l).nodup_iff.2 h
  exact (hle.and hne).imp fun hab => lt_of_le_of_ne hab.1 hab.2

theorem visibleTags_sorted : (visibleTags text db repository imageName username moderator).Pairwise (· < ·) :=
  insertionSort_lt visibleRows_nodup

theorem tagsAfter_sorted (last : String) : (tagsAfter text db repository imageName username moderator last).Pairwise
    (· < ·) := by
  unfold tagsAfter
  split
  · exact visibleTags_sorted
  · exact visibleTags_sorted.filter _

theorem tagsAfter_eq (last : String) :
    tagsAfter text db repository imageName username moderator last =
      (((visibleRows text db repository imageName username moderator).filter fun t =>
        dockerTag text last = "" || dockerTag text last < t.tag).map DockerTag.tag).insertionSort (· ≤ ·) := by
  have hsub : (((visibleRows text db repository imageName username moderator).filter fun t =>
      dockerTag text last = "" || dockerTag text last < t.tag).map DockerTag.tag).Nodup :=
    visibleRows_nodup.sublist (List.filter_sublist.map _)
  refine List.Perm.eq_of_pairwise (fun a b _ _ hab hba => absurd hba (lt_asymm hab)) (tagsAfter_sorted last)
    (insertionSort_lt hsub) ?_
  refine List.Perm.trans ?_ (List.perm_insertionSort _ _).symm
  unfold tagsAfter
  split
  · rename_i hlast
    simp only [hlast, decide_true, Bool.true_or, List.filter_true]
    exact List.perm_insertionSort _ _
  · rename_i hlast
    refine ((List.perm_insertionSort _ _).filter _).trans ?_
    rw [List.filter_map]
    simp [hlast, Function.comp_def]

theorem listDockerTags_tags (last : String) (limit : Int) :
    (listDockerTagsForViewer text db repository imageName last limit username moderator).map DockerTag.tag =
      (tagsAfter text db repository imageName username moderator last).take
        (if limit < 1 ∨ limit > 100 then (50 : Int) else limit).toNat := by
  have hsort : ∀ rows : List DockerTag, (rows.insertionSort fun t u => t.tag ≤ u.tag).map DockerTag.tag =
      (rows.map DockerTag.tag).insertionSort (· ≤ ·) :=
    fun rows => List.map_insertionSort _ _ _ rows fun _ _ _ _ => Iff.rfl
  have hrows : (db.tags.rows.filter fun t => t.repository = (sanitizeDockerKey text repository imageName).1 &&
      t.imageName = (sanitizeDockerKey text repository imageName).2 &&
      (moderator || tagVisible db (viewerID text db.lockDB username) t) && (dockerTag text last = "" || dockerTag text last <
        t.tag)) =
      (visibleRows text db repository imageName username moderator).filter fun t =>
        dockerTag text last = "" || dockerTag text last < t.tag := by
    rw [visibleRows, List.filter_filter]
    refine List.filter_congr fun t _ => ?_
    rw [Bool.and_comm]
  rw [listDockerTagsForViewer, List.map_take, hsort, tagsAfter_eq, ← hrows]

theorem mem_visibleTags {tag : String} (h : tag ∈ visibleTags text db repository imageName username moderator) :
    ∃ t ∈ db.tags.rows, t.tag = tag := by
  obtain ⟨t, ht, rfl⟩ := List.mem_map.1 ((List.perm_insertionSort _ _).mem_iff.1 h)
  exact ⟨t, (List.mem_filter.1 ht).1, rfl⟩

/-- Stored tags are valid: as cursors they stay as they are. -/
def ValidTags (text : Text) (db : DockerDB) : Prop := ∀ t ∈ db.tags.rows, t.tag ≠ "" ∧ dockerTag text t.tag = t.tag

def tagChar (c : Char) : Bool := c.isAlphanum || c = '_' || c = '.' || c = '-'

/-- `dockerTagPattern`, which a push asks of its tag. -/
def validTag (reference : String) : Bool :=
  match reference.toList with
  | [] => false
  | c :: cs => (c.isAlphanum || c = '_') && cs.length ≤ 127 && cs.all tagChar

theorem tagChar_printable {c : Char} (h : tagChar c = true) :
    (33 ≤ c.toNat ∧ c.toNat < 127) ∧ Maven.isSpace c = false := by
  simp only [tagChar, Bool.or_eq_true, decide_eq_true_eq] at h
  refine ⟨?_, Maven.not_isSpace_of_coordinateChar ?_⟩
  · rcases h with ((h | rfl) | rfl) | rfl
    · delta Char.isAlphanum Char.isAlpha Char.isUpper Char.isLower Char.isDigit at h
      simp only [Bool.or_eq_true, Bool.and_eq_true, decide_eq_true_eq, ge_iff_le, UInt32.le_iff_toNat_le] at h
      have hbounds : 'A'.val.toNat = 65 ∧ 'Z'.val.toNat = 90 ∧ 'a'.val.toNat = 97 ∧ 'z'.val.toNat = 122 ∧
          '0'.val.toNat = 48 ∧ '9'.val.toNat = 57 := by decide
      have hnat : c.toNat = c.val.toNat := rfl
      omega
    all_goals decide
  · rcases h with ((h | rfl) | rfl) | rfl
    · simp [Storage.coordinateChar, h]
    all_goals decide

/-- What matches the pattern is stored, and read as a cursor, as it is. -/
theorem dockerTag_of_valid (htrim : ∀ s : String, (∀ c ∈ s.toList, Maven.isSpace c = false) → text.trimSpace s = s)
    {tag : String} (h : validTag tag = true) : tag ≠ "" ∧ dockerTag text tag = tag := by
  unfold validTag at h
  split at h
  · cases h
  · rename_i c cs hcs
    simp only [Bool.and_eq_true, decide_eq_true_eq, List.all_eq_true] at h
    obtain ⟨⟨hfirst, hlength⟩, hrest⟩ := h
    have hchars : ∀ d ∈ tag.toList, tagChar d = true := by
      intro d hd
      rw [hcs] at hd
      rcases List.mem_cons.1 hd with rfl | hd
      · rw [tagChar, hfirst]
        rfl
      · exact hrest d hd
    have hprint : Cargo.Printable tag := fun d hd => (tagChar_printable (hchars d hd)).1
    refine ⟨fun hnil => ?_, ?_⟩
    · rw [hnil] at hcs
      cases hcs
    · rw [dockerTag, Cargo.sanitized, htrim tag fun d hd => (tagChar_printable (hchars d hd)).2]
      refine Cargo.sanitizeInputString_eq hprint ?_
      rw [hprint.utf8ByteSize, hcs, List.length_cons]
      omega

theorem tagsAfter_tag (htags : ValidTags text db) {last tag : String}
    (h : tag ∈ tagsAfter text db repository imageName username moderator last) :
    tagsAfter text db repository imageName username moderator tag =
      (tagsAfter text db repository imageName username moderator last).filter fun t => tag < t := by
  have hmem : tag ∈ visibleTags text db repository imageName username moderator := by
    unfold tagsAfter at h
    split at h
    · exact h
    · exact (List.mem_filter.1 h).1
  obtain ⟨t, ht, rfl⟩ := mem_visibleTags hmem
  obtain ⟨hne, hclean⟩ := htags t ht
  rw [tagsAfter, hclean, if_neg hne]
  unfold tagsAfter at h ⊢
  split
  · rfl
  · rename_i hlast
    rw [if_neg hlast] at h
    have hlt : dockerTag text last < t.tag := by simpa using (List.mem_filter.1 h).2
    rw [List.filter_filter]
    refine List.filter_congr fun u _ => ?_
    by_cases hu : t.tag < u
    · simp [hu, lt_trans hlt hu]
    · simp [hu]

theorem tagsPage_complete {n : Int} (hn : 1 ≤ n ∧ n ≤ 100) (htags : ValidTags text db) :
    Complete (tagsPage text db repository imageName username moderator n)
      (tagsAfter text db repository imageName username moderator) n.toNat id := by
  have hpage : ∀ c, (tagsPage text db repository imageName username moderator n c).1 =
      (tagsAfter text db repository imageName username moderator c).take n.toNat := by
    intro c
    have hlimit : ¬(n < 1 ∨ n > 100) := by omega
    rw [tagsPage, tagsListResponse, listDockerTags_tags, if_neg hlimit]
  have hlink : ∀ c, (tagsPage text db repository imageName username moderator n c).2 =
      if n > 0 ∧ (((tagsAfter text db repository imageName username moderator c).take n.toNat).length : Int) ≥ n then
        ((tagsAfter text db repository imageName username moderator c).take n.toNat).getLast? else none := by
    intro c
    rw [← hpage]
    rfl
  refine ⟨hpage, fun c hlt => ?_, fun c hle => ?_⟩
  · rw [hlink, if_neg]
    rw [List.length_take]
    omega
  · have hne : (tagsAfter text db repository imageName username moderator c).take n.toNat ≠ [] := by
      rw [← List.length_pos_iff, List.length_take]
      omega
    have hlast := List.getLast?_eq_some_getLast hne
    refine ⟨_, hlast, ?_, ?_⟩
    · rw [hlink, if_pos]
      · exact hlast
      · rw [List.length_take]
        omega
    · have hmem := List.mem_of_mem_take (List.getLast_mem hne)
      rw [id, tagsAfter_tag htags hmem]
      exact filter_last_eq_drop (tagsAfter_sorted c) hlast

theorem tagsPage_outside {n : Int} (hn : ¬(1 ≤ n ∧ n ≤ 100)) (c : String) :
    tagsPage text db repository imageName username moderator n c =
      ((tagsAfter text db repository imageName username moderator c).take 50, none) := by
  have hlimit : n < 1 ∨ n > 100 := by omega
  have hnames : (listDockerTagsForViewer text db repository imageName c n username moderator).map DockerTag.tag =
      (tagsAfter text db repository imageName username moderator c).take 50 := by
    rw [listDockerTags_tags, if_pos hlimit]
    rfl
  rw [tagsPage, tagsListResponse, hnames]
  refine Prod.ext rfl (if_neg ?_)
  rw [List.length_take]
  omega

theorem follow_outside {n : Int} (hn : ¬(1 ≤ n ∧ n ≤ 100)) {fuel : Nat} {last : String} {tags : List String}
    (h : follow (tagsPage text db repository imageName username moderator n) fuel last = some tags) :
    tags = (tagsAfter text db repository imageName username moderator last).take 50 := by
  rcases fuel with _ | fuel
  · simp [follow] at h
  · have hlast : follow (tagsPage text db repository imageName username moderator n) (fuel + 1) last =
        some ((tagsAfter text db repository imageName username moderator last).take 50) := by
      rw [follow_last (by rw [tagsPage_outside hn]), tagsPage_outside hn]
    rw [hlast] at h
    exact (Option.some.inj h).symm

theorem tagsAfter_start (htrim : text.trimSpace "" = "") :
    tagsAfter text db repository imageName username moderator "" = visibleTags text db repository imageName username
      moderator := by
  have hempty : Cargo.sanitizeInputString "" 128 = "" := by
    simp [Cargo.sanitizeInputString, Cargo.sanitizeControlBytes, Cargo.truncateUTF8]
  have hstart : dockerTag text "" = "" := by
    rw [dockerTag, Cargo.sanitized, htrim, hempty]
  rw [tagsAfter, if_pos hstart]

/-- Following the links from the first page gives all visible tags, in increasing order, exactly when the size is in the range
of the query or the first 50 tags are all. -/
theorem tagsPages_complete_iff (htags : ValidTags text db) (htrim : text.trimSpace "" = "") (n : Int) :
    (∃ fuel tags, follow (tagsPage text db repository imageName username moderator n) fuel "" = some tags ∧
        tags.Pairwise (· < ·) ∧ ∀ tag, tag ∈ tags ↔ ∃ t ∈ visibleRows text db repository imageName username
          moderator, t.tag = tag) ↔
      (1 ≤ n ∧ n ≤ 100) ∨ (visibleRows text db repository imageName username moderator).length ≤ 50 := by
  have hlength : (visibleTags text db repository imageName username moderator).length =
      (visibleRows text db repository imageName username moderator).length := by
    rw [visibleTags, List.length_insertionSort, List.length_map]
  have hmem : ∀ tag, tag ∈ visibleTags text db repository imageName username moderator ↔
      ∃ t ∈ visibleRows text db repository imageName username moderator, t.tag = tag := by
    intro tag
    rw [visibleTags, (List.perm_insertionSort _ _).mem_iff, List.mem_map]
  constructor
  · rintro ⟨fuel, tags, hfollow, hsorted, htag⟩
    by_cases hn : 1 ≤ n ∧ n ≤ 100
    · exact .inl hn
    · refine .inr ?_
      have heq := follow_outside hn hfollow
      rw [tagsAfter_start htrim] at heq
      have hperm : tags.Perm (visibleTags text db repository imageName username moderator) := by
        refine (List.perm_ext_iff_of_nodup (hsorted.imp ne_of_lt) (visibleTags_sorted.imp ne_of_lt)).2 fun tag => ?_
        rw [htag, hmem]
      rw [← hlength, ← hperm.length_eq, heq, List.length_take]
      omega
  · intro h
    by_cases hn : 1 ≤ n ∧ n ≤ 100
    · have hpages : Complete (tagsPage text db repository imageName username moderator n) _ _ _ := tagsPage_complete hn htags
      have hcomplete := hpages.follow (by omega) ""
      rw [tagsAfter_start htrim] at hcomplete
      exact ⟨_, _, hcomplete, visibleTags_sorted, hmem⟩
    · have hlen := h.resolve_left hn
      refine ⟨1, _, follow_last (by rw [tagsPage_outside hn]) 0, ?_, ?_⟩
      · rw [tagsPage_outside hn, tagsAfter_start htrim]
        exact visibleTags_sorted.sublist (List.take_sublist _ _)
      · intro tag
        rw [tagsPage_outside hn, tagsAfter_start htrim, List.take_of_length_le (by omega), hmem]

end TagPages

/-! ### More than 50 tags -/

def tagRow (i : Nat) : DockerTag := ⟨"r", "app", String.ofList (List.replicate (i + 1) 'a'), "sha256:00", "m", 1⟩

theorem tagRow_injective : Function.Injective (DockerTag.key ∘ tagRow) := by
  intro i j h
  have htag : String.ofList (List.replicate (i + 1) 'a') = String.ofList (List.replicate (j + 1) 'a') :=
    (Prod.mk.inj (Prod.mk.inj h).2).2
  have hlen := congrArg List.length (String.ofList_injective htag)
  simpa using hlen

/-- An image with 51 tags. -/
def manyTags : DockerDB where
  images := .empty
  members := .empty
  teamRole _ _ := none
  profile _ := none
  locks := .empty
  captured := []
  tags := ⟨(List.range 51).map tagRow, by
    rw [List.map_map]
    exact List.nodup_range.map tagRow_injective⟩
  manifests := .empty
  imageBlobs := []
  blobs := .empty

theorem manyTags_valid : ValidTags asciiText manyTags := by
  intro t ht
  obtain ⟨i, hi, rfl⟩ := List.mem_map.1 ht
  have hlt := List.mem_range.1 hi
  refine dockerTag_of_valid (fun s hs => Maven.trimSpace_eq_self hs) ?_
  rw [validTag, tagRow, String.toList_ofList, List.replicate_succ]
  simp only [List.length_replicate, Bool.and_eq_true, decide_eq_true_eq, List.all_eq_true]
  refine ⟨⟨by decide, by omega⟩, fun c hc => ?_⟩
  obtain rfl := List.eq_of_mem_replicate hc
  decide

theorem manyTags_visible : (visibleRows asciiText manyTags "r" "app" "" true).length = 51 := by
  have hkey : sanitizeDockerKey asciiText "r" "app" = ("r", "app") := by decide
  have hall : visibleRows asciiText manyTags "r" "app" "" true = (List.range 51).map tagRow := by
    refine List.filter_eq_self.2 fun t ht => ?_
    obtain ⟨i, -, rfl⟩ := List.mem_map.1 ht
    rw [hkey]
    rfl
  rw [hall, List.length_map, List.length_range]

/-- A client that asks for 101 tags gets 50 of 51, and no next page. -/
theorem tagsPages_incomplete :
    ¬∃ fuel tags, follow (tagsPage asciiText manyTags "r" "app" "" true 101) fuel "" = some tags ∧
      ∀ t ∈ visibleRows asciiText manyTags "r" "app" "" true, t.tag ∈ tags := by
  rintro ⟨fuel, tags, hfollow, htags⟩
  have heq := follow_outside (by decide) hfollow
  have hlen : tags.length ≤ 50 := by
    rw [heq, List.length_take]
    omega
  have hsub : ((visibleRows asciiText manyTags "r" "app" "" true).map DockerTag.tag).Subperm tags :=
    List.subperm_of_subset visibleRows_nodup fun tag htag => by
      obtain ⟨t, ht, rfl⟩ := List.mem_map.1 htag
      exact htags t ht
  have hle := hsub.length_le
  rw [List.length_map, manyTags_visible] at hle
  omega

/-- With 20 as the size, two links are followed, and all 51 tags found. -/
theorem tagsPages_complete_twenty :
    (tagsPage asciiText manyTags "r" "app" "" true 20 "").2 ≠ none ∧
    ∃ fuel tags, follow (tagsPage asciiText manyTags "r" "app" "" true 20) fuel "" = some tags ∧ tags.length = 51 ∧
      tags.Pairwise (· < ·) ∧ ∀ tag, tag ∈ tags ↔ ∃ t ∈ visibleRows asciiText manyTags "r" "app" "" true,
        t.tag = tag := by
  obtain ⟨fuel, tags, hfollow, hsorted, hmem⟩ := (tagsPages_complete_iff manyTags_valid rfl 20).2 (.inl (by decide))
  have hperm : tags.Perm ((visibleRows asciiText manyTags "r" "app" "" true).map DockerTag.tag) :=
    (List.perm_ext_iff_of_nodup (hsorted.imp ne_of_lt) visibleRows_nodup).2 fun tag => by rw [hmem, List.mem_map]
  have hlength : tags.length = 51 := by rw [hperm.length_eq, List.length_map, manyTags_visible]
  refine ⟨fun hnone => ?_, fuel, tags, hfollow, hlength, hsorted, hmem⟩
  have hpages : Complete (tagsPage asciiText manyTags "r" "app" "" true 20)
      (tagsAfter asciiText manyTags "r" "app" "" true) 20 id := tagsPage_complete (by decide) manyTags_valid
  have hall : (tagsAfter asciiText manyTags "r" "app" "" true "").length = 51 := by
    rw [tagsAfter_start rfl, visibleTags, List.length_insertionSort, List.length_map, manyTags_visible]
  obtain ⟨x, -, hlink, -⟩ := hpages.full "" (by rw [hall]; decide)
  rw [hnone] at hlink
  cases hlink

end Renop.Docker
