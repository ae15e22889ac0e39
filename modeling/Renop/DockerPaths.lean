import Renop.CleanPath
import Renop.DockerHandlers

/-!
# The files of the registry

A repository has its blobs, its upload sessions and its manifests in three directories. A session, a digest and an image name
are parts of a path as the request has them. If they are plain, no two of these files are the same; if they are not, the path
may be that of any file.
-/

namespace Renop.Docker

open Renop.Index (Plain under under_injective)

/-- The name of a file in a directory. -/
def plainID (id : String) : Bool := id ∉ ["", ".", ".."] && '/' ∉ id.toList

/-- Names of files with slashes between. -/
def plainName (name : String) : Bool := (name.toList.splitOn '/').all fun seg => Plain seg

/-- The file of a blob with this digest is one in the directory of the blobs. -/
def plainDigest (env : Env) (digest : String) : Bool := plainID (cleanDigestHash env digest)

/-- The names of the repositories are checked when they are set: they are names of directories, and no two are the same but
for the case of their letters. -/
structure Env.Named (env : Env) : Prop where
  plain : ∀ repoName, (env.repos repoName).isSome = true → plainID repoName = true
  key : ∀ r r', (env.repos r).isSome = true → (env.repos r').isSome = true →
    (sanitizeDockerKey env.text r "").1 = (sanitizeDockerKey env.text r' "").1 → r = r'

section Plain

theorem plain_of_plainID {id : String} (h : plainID id = true) : Plain id.toList := by
  unfold plainID at h
  obtain ⟨hne, hslash⟩ := Bool.and_eq_true_iff.1 h
  refine ⟨fun hmem => of_decide_eq_true hne ?_, of_decide_eq_true hslash⟩
  have hstring : ∀ l : List Char, id.toList = l → id = String.ofList l := fun l hl => by rw [← hl, String.ofList_toList]
  simp only [List.mem_cons, List.not_mem_nil, or_false] at hmem
  rcases hmem with hid | hid | hid <;> rw [hstring _ hid] <;> decide

theorem plain_of_plainName {name : String} (h : plainName name = true) : ∀ seg ∈ name.toList.splitOn '/', Plain seg := by
  intro seg hseg
  exact of_decide_eq_true (List.all_eq_true.1 h seg hseg)

end Plain

section Paths
variable {env : Env}

theorem blobPath_under (repository digest : String) :
    blobPath env repository digest = under env.storagePath
      [repository.toList, "blobs".toList, "sha256".toList, (cleanDigestHash env digest).toList] := by
  unfold blobPath under
  congr 1
  apply String.toList_injective
  simp [List.intercalate]

theorem stagingPath_under (repository uploadUUID : String) :
    stagingPath env repository uploadUUID = under env.storagePath
      [repository.toList, ".renop.tmp.docker".toList, uploadUUID.toList] := by
  unfold stagingPath under
  congr 1
  apply String.toList_injective
  simp [List.intercalate]

theorem manifestPath_under (repository imageName digest : String) :
    manifestPath env repository imageName digest = under env.storagePath
      (repository.toList :: "manifests".toList :: (imageName.toList.splitOn '/' ++
        [(cleanDigestHash env digest).toList])) := by
  have hcomps := List.splitOn_ne_nil '/' imageName.toList
  unfold manifestPath under
  congr 1
  apply String.toList_injective
  rw [List.intercalate_cons_cons, List.intercalate_cons_of_ne_nil (by simp), Index.intercalate_concat hcomps,
    List.intercalate_splitOn]
  simp

/-! ### Which paths are the same -/

section Same
variable {r r' digest digest' id imageName imageName' : String}

theorem blob_plain (hr : plainID r = true) (hd : plainDigest env digest = true) :
    ∀ seg ∈ [r.toList, "blobs".toList, "sha256".toList, (cleanDigestHash env digest).toList], Plain seg := by
  intro seg hseg
  simp only [List.mem_cons, List.not_mem_nil, or_false] at hseg
  rcases hseg with rfl | rfl | rfl | rfl
  · exact plain_of_plainID hr
  · decide
  · decide
  · exact plain_of_plainID hd

theorem staging_plain (hr : plainID r = true) (hid : plainID id = true) :
    ∀ seg ∈ [r.toList, ".renop.tmp.docker".toList, id.toList], Plain seg := by
  intro seg hseg
  simp only [List.mem_cons, List.not_mem_nil, or_false] at hseg
  rcases hseg with rfl | rfl | rfl
  · exact plain_of_plainID hr
  · decide
  · exact plain_of_plainID hid

theorem manifest_plain (hr : plainID r = true) (hname : plainName imageName = true) (hd : plainDigest env digest = true) :
    ∀ seg ∈ r.toList :: "manifests".toList :: (imageName.toList.splitOn '/' ++ [(cleanDigestHash env digest).toList]),
      Plain seg := by
  intro seg hseg
  simp only [List.mem_cons, List.mem_append, List.not_mem_nil, or_false] at hseg
  rcases hseg with rfl | rfl | hseg | rfl
  · exact plain_of_plainID hr
  · decide
  · exact plain_of_plainName hname seg hseg
  · exact plain_of_plainID hd

theorem blobPath_injective (hr : plainID r = true) (hr' : plainID r' = true) (hd : plainDigest env digest = true)
    (hd' : plainDigest env digest' = true) (h : blobPath env r digest = blobPath env r' digest') :
    r = r' ∧ cleanDigestHash env digest = cleanDigestHash env digest' := by
  rw [blobPath_under, blobPath_under] at h
  have hsegs := under_injective (blob_plain hr hd) (blob_plain hr' hd') (by simp) (by simp) h
  simp only [List.cons.injEq, and_true, true_and] at hsegs
  exact ⟨String.toList_injective hsegs.1, String.toList_injective hsegs.2⟩

theorem stagingPath_injective {id' : String} (hr : plainID r = true) (hr' : plainID r' = true) (hid : plainID id = true)
    (hid' : plainID id' = true) (h : stagingPath env r id = stagingPath env r' id') : r = r' ∧ id = id' := by
  rw [stagingPath_under, stagingPath_under] at h
  have hsegs := under_injective (staging_plain hr hid) (staging_plain hr' hid') (by simp) (by simp) h
  simp only [List.cons.injEq, and_true, true_and] at hsegs
  exact ⟨String.toList_injective hsegs.1, String.toList_injective hsegs.2⟩

theorem manifestPath_injective (hr : plainID r = true) (hr' : plainID r' = true) (hname : plainName imageName = true)
    (hname' : plainName imageName' = true) (hd : plainDigest env digest = true) (hd' : plainDigest env digest' = true)
    (h : manifestPath env r imageName digest = manifestPath env r' imageName' digest') :
    r = r' ∧ imageName = imageName' ∧ cleanDigestHash env digest = cleanDigestHash env digest' := by
  rw [manifestPath_under, manifestPath_under] at h
  have hsegs := under_injective (manifest_plain hr hname hd) (manifest_plain hr' hname' hd') (by simp) (by simp) h
  simp only [List.cons.injEq, true_and] at hsegs
  obtain ⟨hrepo, hrest⟩ := hsegs
  obtain ⟨hcomps, hhash⟩ := List.append_inj' hrest rfl
  have hjoin := congrArg (List.intercalate ['/']) hcomps
  rw [List.intercalate_splitOn, List.intercalate_splitOn] at hjoin
  exact ⟨String.toList_injective hrepo, String.toList_injective hjoin, String.toList_injective (List.cons.inj hhash).1⟩

theorem stagingPath_ne_blobPath (hr : plainID r = true) (hr' : plainID r' = true) (hid : plainID id = true)
    (hd : plainDigest env digest = true) : stagingPath env r id ≠ blobPath env r' digest := by
  intro h
  rw [blobPath_under, stagingPath_under] at h
  have hsegs := under_injective (staging_plain hr hid) (blob_plain hr' hd) (by simp) (by simp) h
  simp at hsegs

theorem manifestPath_ne_blobPath (hr : plainID r = true) (hr' : plainID r' = true) (hname : plainName imageName = true)
    (hd : plainDigest env digest = true) (hd' : plainDigest env digest' = true) :
    manifestPath env r imageName digest ≠ blobPath env r' digest' := by
  intro h
  rw [blobPath_under, manifestPath_under] at h
  have hsegs := under_injective (manifest_plain hr hname hd) (blob_plain hr' hd') (by simp) (by simp) h
  simp at hsegs

theorem stagingPath_ne_manifestPath (hr : plainID r = true) (hr' : plainID r' = true) (hid : plainID id = true)
    (hname : plainName imageName = true) (hd : plainDigest env digest = true) :
    stagingPath env r id ≠ manifestPath env r' imageName digest := by
  intro h
  rw [stagingPath_under, manifestPath_under] at h
  have hsegs := under_injective (staging_plain hr hid) (manifest_plain hr' hname hd) (by simp) (by simp) h
  simp at hsegs

end Same

end Paths

end Renop.Docker
