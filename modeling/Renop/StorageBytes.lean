import Renop.StorageEvents
import Renop.IndexLists

/-!
# The bytes at a path

Which functions leave the bytes of one path alone (`Event.Spares`), and what is stored where after a commit and after
a deletion. A commit that returns has its bytes at its path: the companions and the builds that it removes are other
paths, and a failure to write checksums, which takes the file back, is an error.
-/

namespace Renop.Storage
open Crash Renop.Index

/-! ### Paths -/

theorem append_ne_self (path : String) {ext : String} (h : ext ≠ "") : path ++ ext ≠ path := by
  intro he
  have hlen := congrArg (fun s : String => s.toList.length) he
  simp only [String.toList_append, List.length_append, Nat.add_eq_left, List.length_eq_zero_iff] at hlen
  exact h (String.toList_inj.1 (by simpa using hlen))

theorem append_inj_right {path a b : String} (h : path ++ a = path ++ b) : a = b := by
  have h' := congrArg String.toList h
  rw [String.toList_append, String.toList_append, List.append_cancel_left_eq] at h'
  exact String.toList_inj.1 h'

theorem ext_ne_empty : ∀ ext ∈ artifactCompanionExts, ext ≠ "" := by decide

theorem companion_ne_self (path : String) {ext : String} (h : ext ∈ artifactCompanionExts) : path ++ ext ≠ path :=
  append_ne_self path (ext_ne_empty ext h)

theorem hasSuffix_toLower_append (path suffix : String) (h : suffix.toLower = suffix) :
    hasSuffix (path ++ suffix).toLower suffix = true := by
  have hmap : suffix.toList.map Char.toLower = suffix.toList := by
    have hlower : (suffix.map Char.toLower).toList = suffix.toList := congrArg String.toList h
    rwa [String.toList_map] at hlower
  show suffix.toList.isSuffixOf ((path ++ suffix).map Char.toLower).toList = true
  rw [String.toList_map, String.toList_append, List.map_append, hmap]
  exact List.isSuffixOf_iff_suffix.2 (List.suffix_append _ _)

theorem isArtifactCompanionPath_append (path : String) {ext : String} (h : ext ∈ artifactCompanionExts) :
    isArtifactCompanionPath (path ++ ext) = true := by
  have hlower : ∀ ext ∈ artifactCompanionExts, ext.toLower = ext := by decide +kernel
  exact List.any_eq_true.2 ⟨ext, h, hasSuffix_toLower_append path ext (hlower ext h)⟩

/-- A superseded build is another file. -/
theorem superseded_ne {path : String} {children : List String} {child : String}
    (h : child ∈ supersededBuilds path children) : (splitPathParentBase path).1 ++ "/" ++ child ≠ path := by
  have hbase : child ≠ (splitPathParentBase path).2 := by
    rintro rfl
    unfold supersededBuilds at h
    dsimp only at h
    split at h
    · cases h
    split at h
    · cases h
    split at h
    · simp at h
    · cases h
  intro he
  have hlist := congrArg String.toList he
  rw [String.toList_append, String.toList_append] at hlist
  rcases hsplit : splitLast path.toList with - | ⟨parent, base⟩
  · have hslash := splitLast_none.1 hsplit
    rw [← hlist] at hslash
    simp at hslash
  · obtain ⟨hpath, hnot⟩ := splitLast_some hsplit
    rw [hpath] at hlist
    have hparts : splitPathParentBase path = (if parent = [] then "/" else String.ofList parent, String.ofList base) := by
      unfold splitPathParentBase
      rw [hsplit]
      cases parent <;> rfl
    rw [hparts] at hlist hbase
    by_cases hnil : parent = []
    · subst hnil
      rw [if_pos rfl] at hlist
      simp only [List.nil_append] at hlist
      have : '/' ∈ base := by
        have h2 := (List.cons.inj hlist).2
        rw [← h2]; simp
      exact hnot this
    · rw [if_neg hnil, String.toList_ofList, List.append_assoc, List.append_cancel_left_eq] at hlist
      refine hbase (String.toList_inj.1 ?_)
      rw [String.toList_ofList]
      exact (List.cons.inj hlist).2

/-! ### Frames -/

/-- The event leaves the bytes at the path. -/
def Event.Spares (path : String) : Event → Prop
  | .write q _ | .delete q => q ≠ path
  | _ => True

section Frames
variable {path : String} {p : String → Prop}

theorem Event.OnFiles.spares {e : Event} (h : e.OnFiles p) (hp : ¬ p path) : e.Spares path := by
  cases e with
  | write q _ => intro he; rw [he] at h; exact hp h
  | delete q => intro he; rw [he] at h; exact hp h
  | _ => trivial

theorem Event.OnReviews.spares {e : Event} (h : e.OnReviews) : e.Spares path := by
  cases e <;> trivial

theorem Event.Spares.bytesAt {e : Event} (h : e.Spares path) (s : Store) :
    (e.apply s).bytesAt path = s.bytesAt path := by
  cases e with
  | write q file => exact congrArg _ (AList.lookup_insert_ne (Ne.symm h))
  | delete q => exact congrArg _ (AList.lookup_erase_ne (Ne.symm h))
  | _ => rfl

theorem Trace.bytesAt {E : Event → Prop} {s s' : Store} (h : Trace E s s') (hE : ∀ e, E e → e.Spares path) :
    s'.bytesAt path = s.bytesAt path :=
  h.keeps (f := fun s => s.bytesAt path) fun s e he => (hE e he).bytesAt s

end Frames

/-! ### Writing and deleting -/

/-- From `P` to `Q` whatever the faults; `I` holds at every error and at every crash. -/
abbrev Safe {α : Type} (I P : Store → Prop) (m : StoreM α) (Q : α → Store → Prop) :
    Prop := Prog.Spec Sched.any I P m Q

section Rules
variable {α β : Type} {I P : Store → Prop} {Q : α → Store → Prop}

theorem any_mayFail : Sched.any.mayFail := ⟨[], trivial⟩

theorem Safe.act (site : Site) {f : Store → Store} {Q : Unit → Store → Prop} (hI : ∀ s, P s → I s)
    (h : ∀ s, P s → Q () (f s)) : Safe I P (act site f) Q :=
  .step hI fun s hs => ⟨(), f s, rfl, h s hs⟩

theorem Safe.query (site : Site) {f : Store → α} (hI : ∀ s, P s → I s) (h : ∀ s, P s → Q (f s) s) :
    Safe I P (query site f) Q :=
  .step hI fun s hs => ⟨f s, s, rfl, h s hs⟩

theorem Safe.throw (e : StorageError) (hI : ∀ s, P s → I s) : Safe I P (Prog.throw e) Q :=
  Prog.Spec.throw e fun s hs => ⟨hI s hs, any_mayFail⟩

theorem Safe.bind {m : StoreM α} {k : α → StoreM β} {R : β → Store → Prop} (hm : Safe I P m Q)
    (hk : ∀ a, Safe I (Q a) (k a) R) : Safe I P (m >>= k) R :=
  Prog.Spec.bind hm hk

theorem Safe.ignore {m : StoreM Unit} {Q : Unit → Store → Prop} (hm : Safe I P m fun _ => I) (hQ : ∀ s, I s → Q () s) :
    Safe I P (ignore m) Q := by
  refine .bind (Prog.Spec.attempt hm fun _ h => h) fun r => .pure () fun s hs => ?_
  cases r with
  | ok _ => exact hQ s hs
  | error _ => exact hQ s hs.1

theorem Safe.and_post {m : StoreM α} {Q' : α → Store → Prop} (h : Safe I P m Q)
    (h' : Safe (fun _ => True) (fun _ => True) m Q') : Safe I P m fun a s => Q a s ∧ Q' a s :=
  ((Prog.Spec.and h h').weaken fun _ h => h.1).conseq (fun _ h => ⟨h, trivial⟩) fun _ _ h => h

theorem safe_tryAll_some (keep : StorageError → StorageError → StorageError) (ms : List (StoreM Unit)) (e : StorageError)
    (Q : Unit → Store → Prop) : Safe (fun _ => True) (fun _ => True) (tryAll keep ms (some e)) Q := by
  induction ms generalizing e with
  | nil => exact Safe.throw e fun _ _ => trivial
  | cons m ms ih =>
    have hm : Safe (fun _ => True) (fun _ => True) m fun _ _ => True :=
      .of_within (R := fun _ _ => True) (fun _ _ => trivial) (fun _ _ h _ => h) fun _ h => h
    refine .bind ((Prog.Spec.attempt hm fun _ h => h).conseq (fun _ h => h) fun _ _ _ => trivial) fun r => ?_
    cases r <;> exact ih _

end Rules

section Bytes
variable {path : String} {bytes : Bytes}

theorem written_generateChecksums (digests : ContentDigests) (now : Int) :
    Safe (fun _ => True) (fun s => s.bytesAt path = some bytes) (generateChecksums path digests now)
      fun _ s => s.bytesAt path = some bytes := by
  have hsave : Prog.Within (Trace (Event.Spares path)) (tryAll (fun first _ => first) (Digest.all.map fun d =>
      saveAndUploadChecksum path d (digests.get d) now) none) := by
    refine within_tryAll (Trace.frame _) _ (fun m hm => ?_) none
    obtain ⟨d, -, rfl⟩ := List.mem_map.1 hm
    exact within_saveAndUploadChecksum (p := (· ≠ path)) (fun _ h => h.spares (· rfl)) d
      (companion_ne_self path (digest_ext_mem d)) _ _
  refine .bind (Prog.Spec.attempt (.of_within (I := fun _ => True) hsave (fun s s' hs ht =>
    (ht.bytesAt fun _ h => h).trans hs) fun _ _ => trivial) fun _ h => h) fun r => ?_
  cases r with
  | ok _ => exact .pure _ fun _ h => h
  | error e => exact (safe_tryAll_some _ _ e _).conseq (fun _ _ => trivial) fun _ _ h => h

theorem written_commitUploadedFile (size modTime : Int) (existed wantChecksums : Bool) (digests : Option ContentDigests) :
    Safe (fun _ => True) (fun _ => True) (commitUploadedFile path bytes size modTime existed wantChecksums digests)
      fun _ s => s.bytesAt path = some bytes := by
  unfold commitUploadedFile
  split
  · exact Safe.throw _ fun _ h => h
  refine .bind (.read (Q := fun _ _ => True) fun _ h => h) fun repo => ?_
  split
  · exact Safe.throw _ fun _ h => h
  dsimp only
  split
  · exact Safe.throw _ fun _ h => h
  refine .bind (Q := fun _ s => s.bytesAt path = some bytes) (Safe.act _ (fun _ h => h) fun s _ => ?_) fun _ => ?_
  · show ((s.files.insert path ⟨bytes, modTime⟩).lookup path).map StoredFile.bytes = some bytes
    rw [AList.lookup_insert]
    rfl
  refine .bind (.modify (Q := fun _ s => s.bytesAt path = some bytes) fun s hs => hs) fun _ => ?_
  refine .bind (Q := fun _ s => s.bytesAt path = some bytes) (.of_within (.when (Trace.frame (Event.Spares path)) fun _ =>
    within_supersedeSnapshot (p := (· ≠ path)) (fun _ h => h.spares (· rfl)) existed ?_ ?_)
    (fun s s' hs ht => (ht.bytesAt fun _ h => h).trans hs) fun _ _ => trivial) fun _ => ?_
  · exact fun _ ext hext => companion_ne_self path hext
  · exact fun _ children child hchild => superseded_ne hchild
  split
  · exact .when (fun _ => written_generateChecksums _ _) fun _ _ h => h
  · exact .pure _ fun _ h => h

end Bytes

end Renop.Storage
