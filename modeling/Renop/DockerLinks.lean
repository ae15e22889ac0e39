import Renop.DockerIsolation

/-!
# The links of an image

An upload or a mount links a blob to its image in a row without a manifest. A manifest that lists the blob takes that row
over, and with the manifest the row goes. `lists` says which blobs a manifest lists, by its digest.
-/

namespace Renop.Docker

open Sql
open Renop.SuperTeam (Text)
open Renop.Cargo (Key)

def Present (db : DockerDB) (key : Key) : Prop := (db.images.find? key).isSome = true

structure LinkKept (key : Key) (digest : String) (db db' : DockerDB) : Prop where
  linked : Linked db key digest = true → Linked db' key digest = true
  present : Present db key → Present db' key

/-- The row of a link may have this manifest; that of an upload has none. -/
def Belongs (lists : String → String → Prop) (manifestDigest digest : String) :
    Prop := manifestDigest = "" ∨ lists manifestDigest digest

def Listed (lists : String → String → Prop) (db : DockerDB) :
    Prop := ∀ b ∈ db.imageBlobs, Belongs lists b.manifestDigest b.blobDigest

/-- The manifest lists what its digest says. -/
def Agrees (env : Env) (lists : String → String → Prop) (parsed : ParsedManifest) : Prop :=
  ∀ digest, digest ∈ blobKeys env (referencedBlobDigests parsed) ↔ lists (dockerDigest env.text parsed.digest) digest

variable {text : Text} {db db' db'' : DockerDB} {key : Key} {digest : String} {lists : String → String → Prop}

theorem linked_iff : Linked db key digest = true ↔ ∃ b ∈ db.imageBlobs, b.key = key ∧ b.blobDigest = digest := by
  simp [Linked, List.any_eq_true]

theorem LinkKept.refl (key : Key) (digest : String) (db : DockerDB) : LinkKept key digest db db := ⟨id, id⟩

theorem LinkKept.trans (h : LinkKept key digest db db') (h' : LinkKept key digest db' db'') : LinkKept key digest db db'' :=
  ⟨h'.linked ∘ h.linked, h'.present ∘ h.present⟩

theorem LinkKept.of_eq (hlinks : db'.imageBlobs = db.imageBlobs) (himages : db'.images = db.images) :
    LinkKept key digest db db' :=
  ⟨fun h => by unfold Linked at h ⊢; rwa [hlinks], fun h => by unfold Present at h ⊢; rwa [himages]⟩

theorem LinkKept.of_links (hlinks : ∀ b ∈ db.imageBlobs, b.key = key → b.blobDigest = digest →
      ∃ b' ∈ db'.imageBlobs, b'.key = b.key ∧ b'.blobDigest = b.blobDigest)
    (himages : Present db key → Present db' key) : LinkKept key digest db db' := by
  refine ⟨fun h => ?_, himages⟩
  obtain ⟨b, hb, hkey, hdigest⟩ := linked_iff.1 h
  obtain ⟨b', hb', hkey', hdigest'⟩ := hlinks b hb hkey hdigest
  exact linked_iff.2 ⟨b', hb', hkey'.trans hkey, hdigest'.trans hdigest⟩

theorem Listed.of_subset (h : Listed lists db) (hlinks : ∀ b ∈ db'.imageBlobs, b ∈ db.imageBlobs) : Listed lists db' :=
  fun b hb => h b (hlinks b hb)

theorem LinkKept.deleted {p : ImageBlob → Bool} {q : DockerImage → Bool}
    (hlinks : db'.imageBlobs = db.imageBlobs.filter fun b => !p b)
    (himages : db'.images = db.images.delete q) (hp : ∀ b ∈ db.imageBlobs, b.key = key → b.blobDigest = digest →
      p b = false) (hq : ∀ i : DockerImage, i.key = key → q i = false) : LinkKept key digest db db' := by
  refine .of_links (fun b hb hkey hdigest => ⟨b, ?_, rfl, rfl⟩) fun h => ?_
  · rw [hlinks]
    exact List.mem_filter.2 ⟨hb, by rw [hp b hb hkey hdigest]; rfl⟩
  · unfold Present at h ⊢
    rw [himages, Table.find?_delete_of fun i hi => hq i hi]
    exact h

/-! ### Manifests -/

section LinkBlobs
variable {m : ManifestWrite} {digests : List String} {links : List ImageBlob}

end LinkBlobs

end Renop.Docker
