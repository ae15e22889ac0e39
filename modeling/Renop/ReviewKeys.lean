import Renop.Base64
import Renop.ResourceLockRules
import Renop.Review

/-!
# Keys of reviews and locks

The texts whose SHA-256 digests identify a lock (`resourceLockID`) and a pending review (`active_key`), and the encoding of a
package and a version in one `resource_key`. Each of them determines what it was made of.
-/

namespace Renop.Review

open Sql Cargo

/-! ### Publications -/

/-- The key and the version are given by their bytes. -/
def publicationReviewKey (resourceKey version : List UInt8) : List Char :=
  ['v', '1', '.'] ++ Base64.encodeToString resourceKey ++ ['.'] ++ Base64.encodeToString version

def decodePublicationReviewKey (value : List Char) : Option (List UInt8 × List UInt8) :=
  match value.splitOn '.' with
  | [v, k, w] =>
    if v ≠ ['v', '1'] then none
    else
      match Base64.decodeString k, Base64.decodeString w with
      | some resourceKey, some version => if resourceKey = [] ∨ version = [] then none else some (resourceKey, version)
      | _, _ => none
  | _ => none

def utf8 (s : String) : List UInt8 := s.toByteArray.data.toList

theorem utf8_injective {s t : String} (h : utf8 s = utf8 t) : s = t :=
  String.toByteArray_inj.1 (ByteArray.ext (Array.toList_inj.1 h))

theorem encode_dot (src : List UInt8) : '.' ∉ Base64.encodeToString src :=
  fun h => absurd (Base64.encodeToString_mem h) (by decide)

theorem splitOn_publicationReviewKey (resourceKey version : List UInt8) :
    (publicationReviewKey resourceKey version).splitOn '.' =
      [['v', '1'], Base64.encodeToString resourceKey, Base64.encodeToString version] := by
  have hjoin : publicationReviewKey resourceKey version =
      List.intercalate ['.'] [['v', '1'], Base64.encodeToString resourceKey, Base64.encodeToString version] := by
    simp [publicationReviewKey, List.intercalate_cons_cons]
  rw [hjoin]
  refine List.splitOn_intercalate '.' (fun part hpart => ?_) (by simp)
  simp only [List.mem_cons, List.not_mem_nil, or_false] at hpart
  rcases hpart with rfl | rfl | rfl
  · decide
  · exact encode_dot resourceKey
  · exact encode_dot version

theorem decode_publicationReviewKey {resourceKey version : List UInt8} (hkey : resourceKey ≠ [])
    (hversion : version ≠ []) :
    decodePublicationReviewKey (publicationReviewKey resourceKey version) = some (resourceKey, version) := by
  rw [decodePublicationReviewKey, splitOn_publicationReviewKey]
  simp [Base64.decode_encode, hkey, hversion]

theorem publicationReviewKey_inj {k v k' v' : List UInt8} (h : publicationReviewKey k v = publicationReviewKey k' v') :
    k = k' ∧ v = v' := by
  have hsplit := splitOn_publicationReviewKey k v
  rw [h, splitOn_publicationReviewKey] at hsplit
  simp only [List.cons.injEq, and_true, true_and] at hsplit
  exact ⟨(Base64.encodeToString_injective hsplit.1).symm, (Base64.encodeToString_injective hsplit.2).symm⟩

/-! ### Active keys -/

def ResourceType.name : ResourceType → String
  | .dockerImage => "docker_image"
  | .npmPackage => "npm_package"
  | .cargoPackage => "cargo_package"
  | .mavenArtifact => "maven_artifact"
  | .mavenDomain => "maven_domain"

/-- `strings.Join` with NUL. -/
def joinNul (fields : List String) : List Char := List.intercalate ['\x00'] (fields.map String.toList)

def publicationReviewActiveKey (resourceType repository storedResourceKey : String) : List Char :=
  joinNul ["publication", resourceType, repository, storedResourceKey]

def transferReviewActiveKey (resourceType repository resourceKey : String) : List Char :=
  joinNul ["super_team_transfer", resourceType, repository, resourceKey]

/-- The text that an `active_key` is the digest of. -/
def ActiveKey.preimage : ActiveKey → List Char
  | .transfer type repository key => transferReviewActiveKey type.name repository key
  | .publication type repository key version =>
    publicationReviewActiveKey type.name repository (String.ofList (publicationReviewKey (utf8 key) (utf8 version)))
  | .restore repository key => joinNul ["maven_restore", repository, key]

/-- The keys that the calls make: of a normalized request, or of a resource they looked for. -/
def ActiveKey.Admitted (text : Text) : ActiveKey → Prop
  | .transfer type repository key => ∃ r k, normalizeResourceKey text type r k = some (type, repository, key)
  | .publication type repository key version =>
    ∃ request p, normalizePublication text request = .ok p ∧ p.activeKey = .publication type repository key version
  | .restore repository key => ∃ r g a, repository = sanitizeMavenRepository text r ∧
      key = sanitizeMavenDomain text g ++ ":" ++ sanitized text a 255

def NulFree (s : String) : Prop := '\x00' ∉ s.toList

instance (s : String) : Decidable (NulFree s) := inferInstanceAs (Decidable (_ ∉ _))

theorem joinNul_inj {fields fields' : List String} (h : ∀ s ∈ fields, NulFree s) (h' : ∀ s ∈ fields', NulFree s)
    (hne : fields ≠ []) (hne' : fields' ≠ []) (heq : joinNul fields = joinNul fields') : fields = fields' := by
  have hsplit : ∀ {l : List String}, (∀ s ∈ l, NulFree s) → l ≠ [] →
      (joinNul l).splitOn '\x00' = l.map String.toList := by
    intro l hl hlne
    refine List.splitOn_intercalate _ (fun cs hcs => ?_) (by simpa using hlne)
    obtain ⟨s, hs, rfl⟩ := List.mem_map.1 hcs
    exact hl s hs
  have hmap := hsplit h hne
  rw [heq, hsplit h' hne'] at hmap
  exact List.map_injective_iff.2 (fun _ _ hst => String.toList_inj.1 hst) hmap.symm

theorem truncateUTF8_subset' (l : List Char) (n : Nat) : truncateUTF8 l n ⊆ l := by
  induction l generalizing n with
  | nil => exact List.Subset.refl _
  | cons c l ih =>
    unfold truncateUTF8
    split
    · exact List.cons_subset_cons c (ih _)
    · exact List.nil_subset _

theorem sanitizeInputString_nulFree (s : String) (n : Nat) : NulFree (sanitizeInputString s n) := by
  have hcontrol : ∀ c ∈ (sanitizeControlBytes s).toList, c ≠ '\x00' := by
    intro c hc
    rw [sanitizeControlBytes, String.toList_ofList] at hc
    rintro rfl
    exact absurd (List.mem_filter.1 hc).2 (by decide)
  intro hnul
  unfold sanitizeInputString at hnul
  dsimp only at hnul
  split at hnul
  · rw [String.toList_ofList] at hnul
    exact hcontrol _ (truncateUTF8_subset' _ _ hnul) rfl
  · exact hcontrol _ hnul rfl

theorem NulFree.append {s t : String} (hs : NulFree s) (ht : NulFree t) : NulFree (s ++ t) := by
  unfold NulFree at hs ht ⊢
  rw [String.toList_append, List.mem_append, not_or]
  exact ⟨hs, ht⟩

theorem ResourceType.name_nulFree (type : ResourceType) : NulFree type.name := by
  cases type <;> decide

theorem ResourceType.name_inj {type type' : ResourceType} (h : type.name = type'.name) : type = type' := by
  cases type <;> cases type' <;> first | rfl | exact absurd h (by decide)

theorem publicationReviewKey_nulFree (k v : List UInt8) : NulFree (String.ofList (publicationReviewKey k v)) := by
  have halphabet : '\x00' ∉ Base64.alphabet := by decide
  unfold NulFree
  rw [String.toList_ofList]
  simp only [publicationReviewKey, List.mem_append, not_or]
  exact ⟨⟨⟨by decide, fun h => halphabet (Base64.encodeToString_mem h)⟩, by decide⟩, fun h =>
    halphabet (Base64.encodeToString_mem h)⟩

theorem sanitized_nulFree (text : Text) (s : String) (n : Nat) :
    NulFree (sanitized text s n) := sanitizeInputString_nulFree _ n

theorem sanitizeMavenDomain_nulFree (text : Text) (s : String) :
    NulFree (sanitizeMavenDomain text s) := sanitizeInputString_nulFree _ 253

theorem sanitizeMavenRepository_nulFree (text : Text) (s : String) : NulFree (sanitizeMavenRepository text s) :=
  sanitizeInputString_nulFree _ 64

theorem coordinate_nulFree (text : Text) (group artifact : String) :
    NulFree (sanitizeMavenDomain text group ++ ":" ++ sanitized text artifact 255) := by
  have hcolon : NulFree ":" := by decide
  exact ((sanitizeMavenDomain_nulFree text group).append hcolon).append (sanitized_nulFree text artifact 255)

theorem splitMavenArtifactReviewKey_nulFree {text : Text} {value group artifact : String}
    (h : splitMavenArtifactReviewKey text value = some (group, artifact)) : NulFree (group ++ ":" ++ artifact) := by
  simp only [splitMavenArtifactReviewKey] at h
  split at h
  · cases h
  · split at h
    · cases h
    · obtain ⟨rfl, rfl⟩ := Prod.mk.inj (Option.some.inj h)
      exact coordinate_nulFree text _ _

theorem normalizeResourceKey_nulFree {text : Text} (hlower : ∀ s, NulFree s → NulFree (text.toLower s))
    {type type' : ResourceType}
    {r k repository key : String} (h : normalizeResourceKey text type r k = some (type', repository, key)) :
    NulFree repository ∧ NulFree key := by
  have hlowered : ∀ (s : String) (n : Nat), NulFree (text.toLower (sanitized text s n)) :=
    fun s n => hlower _ (sanitized_nulFree text s n)
  cases type with
  | dockerImage =>
    cases h
    exact ⟨hlowered _ _, hlowered _ _⟩
  | npmPackage =>
    cases h
    exact ⟨hlowered _ _, hlowered _ _⟩
  | cargoPackage =>
    cases h
    exact ⟨hlowered _ _, hlowered _ _⟩
  | mavenArtifact =>
    simp only [normalizeResourceKey, Option.map_eq_some_iff, Prod.mk.injEq, Prod.exists] at h
    obtain ⟨group, artifact, hsplit, -, rfl, rfl⟩ := h
    exact ⟨hlowered _ _, splitMavenArtifactReviewKey_nulFree hsplit⟩
  | mavenDomain =>
    cases h
    exact ⟨by decide, sanitizeMavenDomain_nulFree text _⟩

theorem normalizePublication_fields {text : Text} {request : PublicationRequest} {p : NormalPublication}
    (h : normalizePublication text request = .ok p) :
    p.repository = sanitizeMavenRepository text request.repository ∧ p.resourceKey ≠ "" ∧ p.version ≠ "" := by
  unfold normalizePublication at h
  obtain ⟨policy, -, h⟩ := bind_ok.1 h
  obtain ⟨type, -, h⟩ := bind_ok.1 h
  obtain ⟨reviewTeam, -, h⟩ := bind_ok.1 h
  obtain ⟨targetTeam, -, h⟩ := bind_ok.1 h
  obtain ⟨files, -, h⟩ := bind_ok.1 h
  obtain ⟨⟨-, hkey, -, hversion, -⟩, h⟩ := require_bind_ok.1 h
  obtain ⟨-, h⟩ := require_bind_ok.1 h
  obtain ⟨-, h⟩ := require_bind_ok.1 h
  obtain ⟨-, h⟩ := require_bind_ok.1 h
  cases h
  exact ⟨rfl, hkey, hversion⟩

/-- What is joined. -/
def ActiveKey.fields : ActiveKey → List String
  | .transfer type repository key => ["super_team_transfer", type.name, repository, key]
  | .publication type repository key version =>
    ["publication", type.name, repository, String.ofList (publicationReviewKey (utf8 key) (utf8 version))]
  | .restore repository key => ["maven_restore", repository, key]

theorem ActiveKey.preimage_eq (k : ActiveKey) : k.preimage = joinNul k.fields := by
  cases k <;> rfl

theorem ActiveKey.fields_ne_nil (k : ActiveKey) : k.fields ≠ [] := by
  cases k <;> simp [ActiveKey.fields]

theorem ActiveKey.fields_inj {a b : ActiveKey} (h : a.fields = b.fields) : a = b := by
  cases a with
  | transfer type repository key =>
    cases b with
    | transfer type' repository' key' =>
      simp only [ActiveKey.fields, List.cons.injEq, and_true, true_and] at h
      obtain ⟨htype, rfl, rfl⟩ := h
      rw [ResourceType.name_inj htype]
    | publication type' repository' key' version' => simp [ActiveKey.fields] at h
    | restore repository' key' => simp [ActiveKey.fields] at h
  | publication type repository key version =>
    cases b with
    | transfer type' repository' key' => simp [ActiveKey.fields] at h
    | publication type' repository' key' version' =>
      simp only [ActiveKey.fields, List.cons.injEq, and_true, true_and] at h
      obtain ⟨htype, rfl, hkey⟩ := h
      obtain ⟨hk, hv⟩ := publicationReviewKey_inj (String.ofList_injective hkey)
      rw [ResourceType.name_inj htype, utf8_injective hk, utf8_injective hv]
    | restore repository' key' => simp [ActiveKey.fields] at h
  | restore repository key =>
    cases b with
    | transfer type' repository' key' => simp [ActiveKey.fields] at h
    | publication type' repository' key' version' => simp [ActiveKey.fields] at h
    | restore repository' key' =>
      simp only [ActiveKey.fields, List.cons.injEq, and_true, true_and] at h
      obtain ⟨rfl, rfl⟩ := h
      rfl

theorem ActiveKey.Admitted.nulFree {text : Text} (hlower : ∀ s, NulFree s → NulFree (text.toLower s)) {k : ActiveKey}
    (h : k.Admitted text) : ∀ s ∈ k.fields, NulFree s := by
  have hkinds : NulFree "super_team_transfer" ∧ NulFree "publication" ∧ NulFree "maven_restore" := by decide
  cases k with
  | transfer type repository key =>
    obtain ⟨r, k, hk⟩ := h
    obtain ⟨hr, hkey⟩ := normalizeResourceKey_nulFree hlower hk
    simp only [ActiveKey.fields, List.forall_mem_cons, List.not_mem_nil, false_imp_iff, implies_true, and_true]
    exact ⟨hkinds.1, type.name_nulFree, hr, hkey⟩
  | publication type repository key version =>
    obtain ⟨request, p, hp, heq⟩ := h
    cases heq
    have hr : NulFree p.repository := by
      rw [(normalizePublication_fields hp).1]
      exact sanitizeMavenRepository_nulFree text _
    simp only [ActiveKey.fields, List.forall_mem_cons, List.not_mem_nil, false_imp_iff, implies_true, and_true]
    exact ⟨hkinds.2.1, ResourceType.name_nulFree _, hr, publicationReviewKey_nulFree _ _⟩
  | restore repository key =>
    obtain ⟨r, g, a, rfl, rfl⟩ := h
    simp only [ActiveKey.fields, List.forall_mem_cons, List.not_mem_nil, false_imp_iff, implies_true, and_true]
    exact ⟨hkinds.2.2, sanitizeMavenRepository_nulFree text r, coordinate_nulFree text g a⟩

theorem ActiveKey.preimage_inj {text : Text} (hlower : ∀ s, NulFree s → NulFree (text.toLower s)) {a b : ActiveKey}
    (ha : a.Admitted text) (hb : b.Admitted text) (h : a.preimage = b.preimage) : a = b := by
  rw [ActiveKey.preimage_eq, ActiveKey.preimage_eq] at h
  exact ActiveKey.fields_inj (joinNul_inj (ha.nulFree hlower) (hb.nulFree hlower) a.fields_ne_nil b.fields_ne_nil h)

/-- The digest of a lock is of one target, the encoded key of a publication of one key and version, and the active keys that
the calls make are of one resource. Only the case mapping is assumed to make no NUL. -/
theorem identityEncodings_injective (text : Text) (hlower : ∀ s, NulFree s → NulFree (text.toLower s)) :
    (∀ target target' : Locks.LockTarget, Locks.resourceLockID target = Locks.resourceLockID target' →
      target = target') ∧ (∀ k v, k ≠ [] → v ≠ [] → decodePublicationReviewKey (publicationReviewKey k v) = some (k, v)) ∧
    (∀ k v k' v', publicationReviewKey k v = publicationReviewKey k' v' → k = k' ∧ v = v') ∧
    ∀ a b : ActiveKey, a.Admitted text → b.Admitted text → a.preimage = b.preimage → a = b :=
  ⟨fun _ _ h => Locks.resourceLockID_inj h, fun _ _ hk hv => decode_publicationReviewKey hk hv,
    fun _ _ _ _ h => publicationReviewKey_inj h, fun _ _ ha hb h => ActiveKey.preimage_inj hlower ha hb h⟩

/-- With the case mapping of ASCII. -/
def asciiText : Text := ⟨fun s => String.ofList (s.toList.map Char.toLower), id, fun _ => true, fun _ => ""⟩

theorem asciiText_nulFree (s : String) (hs : NulFree s) : NulFree (asciiText.toLower s) := by
  intro hnul
  rw [asciiText, String.toList_ofList] at hnul
  obtain ⟨c, hc, heq⟩ := List.mem_map.1 hnul
  have hc0 : c = '\x00' := by
    by_cases hupper : c.val ≥ 'A'.val ∧ c.val ≤ 'Z'.val
    · delta Char.toLower at heq
      rw [dif_pos hupper] at heq
      have hval : c.val + ('a'.val - 'A'.val) = 0 := congrArg Char.val heq
      have hbounds : 'A'.val.toNat = 65 ∧ 'Z'.val.toNat = 90 ∧ ('a'.val - 'A'.val).toNat = 32 := by decide
      have hnat := congrArg UInt32.toNat hval
      simp only [ge_iff_le, UInt32.le_iff_toNat_le, UInt32.toNat_add, UInt32.toNat_zero] at hupper hnat
      omega
    · delta Char.toLower at heq
      rwa [dif_neg hupper] at heq
  exact hs (hc0 ▸ hc)

theorem identityEncodings_injective_ascii :
    Locks.resourceLockID ⟨.package .cargo, "r", "ab", "c"⟩ ≠ Locks.resourceLockID ⟨.package .cargo, "r",
      "a", "bc"⟩ ∧ decodePublicationReviewKey (publicationReviewKey (utf8 "org.acme:lib") (utf8 "1.0")) =
      some (utf8 "org.acme:lib", utf8 "1.0") ∧
    publicationReviewKey (utf8 "ab") (utf8 "c") ≠ publicationReviewKey (utf8 "a") (utf8 "bc") ∧
    (ActiveKey.transfer .mavenArtifact "r" "org.acme:lib").preimage ≠ (ActiveKey.restore "r" "org.acme:lib").preimage := by
  obtain ⟨hlock, hdecode, hkey, hactive⟩ := identityEncodings_injective asciiText asciiText_nulFree
  refine ⟨fun h => absurd (hlock _ _ h) (by decide), hdecode _ _ (by decide) (by decide), fun h => ?_, fun h => ?_⟩
  · exact absurd (hkey _ _ _ _ h).1 (by decide)
  · have htransfer : (ActiveKey.transfer .mavenArtifact "r" "org.acme:lib").Admitted asciiText :=
      ⟨"r", "org.acme:lib", by decide⟩
    have hrestore : (ActiveKey.restore "r" "org.acme:lib").Admitted asciiText :=
      ⟨"r", "org.acme", "lib", by decide, by decide⟩
    exact absurd (hactive _ _ htransfer hrestore h) (by decide)

end Renop.Review
