import Renop.Maven

/-!
# Upload authority and catalog ownership

For a path with a coordinate the upload check matches the longest domain against group, artifact and version,
the other checks match it against the group alone. `Chosen` says which name a match yields: the longest of
the listed names that contain the candidate. A name that contains the directories but not the group is
longer than every name that contains the group, and a name that only the full list has may be the longest
there, so the checks agree exactly if there is no name of the first kind and every name of the second kind
is outmatched (`domains_agree_iff`).
-/

namespace Renop.Maven

open Sql Storage Hierarchy

/-! ### Names -/

theorem domainContainsGroup_iff {domain groupID : String} :
    domainContainsGroup domain groupID = true ↔ Above '.' domain.toList groupID.toList := by
  unfold domainContainsGroup Above hasPrefix
  rw [Bool.or_eq_true, decide_eq_true_eq, List.isPrefixOf_iff_prefix, String.toList_append, String.toList_inj]
  rfl

theorem utf8ByteSize_lt {a b : String} (h : Above '.' a.toList b.toList) (hne : a ≠ b) :
    a.utf8ByteSize < b.utf8ByteSize := by
  obtain ⟨r, hr⟩ := h.isPrefix
  have hb : b = a ++ String.ofList r := by
    rw [← String.toList_inj, String.toList_append, String.toList_ofList, hr]
  have hpos : (String.ofList r).utf8ByteSize ≠ 0 := by
    intro h0
    rw [String.utf8ByteSize_eq_zero_iff.1 h0, String.append_empty] at hb
    exact hne hb.symm
  rw [hb, String.utf8ByteSize_append]
  omega

theorem eq_of_utf8ByteSize {a b c : String} (ha : Above '.' a.toList c.toList) (hb : Above '.' b.toList c.toList)
    (h : a.utf8ByteSize = b.utf8ByteSize) : a = b := by
  by_contra hne
  rcases ha.total hb with hab | hba
  · exact absurd (utf8ByteSize_lt hab hne) (by omega)
  · exact absurd (utf8ByteSize_lt hba (Ne.symm hne)) (by omega)

/-- `n` is the longest of the names with `P` that contain `candidate`. -/
structure Chosen (P : String → Prop) (candidate n : String) : Prop where
  listed : P n
  above : Above '.' n.toList candidate.toList
  longest : ∀ m, P m → Above '.' m.toList candidate.toList → m.utf8ByteSize ≤ n.utf8ByteSize

theorem Chosen.unique {P : String → Prop} {candidate m n : String} (hm : Chosen P candidate m) (hn : Chosen P candidate n) :
    m = n :=
  eq_of_utf8ByteSize hm.above hn.above (Nat.le_antisymm (hn.longest m hm.listed hm.above) (hm.longest n hn.listed hn.above))

theorem matchingDomain_iff {domains : List ListedDomain} {candidate n : String} {P : String → Prop}
    (hP : ∀ m, P m ↔ ∃ d ∈ domains, d.domain = m) :
    (matchingDomain domains candidate).map (·.domain) = some n ↔ Chosen P candidate n := by
  constructor
  · intro h
    obtain ⟨d, hd, rfl⟩ := Option.map_eq_some_iff.1 h
    obtain ⟨hmem, hcontains, hmax⟩ := longest_eq_some hd
    refine ⟨(hP _).2 ⟨d, hmem, rfl⟩, domainContainsGroup_iff.1 hcontains, fun m hm hm' => ?_⟩
    obtain ⟨e, he, rfl⟩ := (hP m).1 hm
    exact hmax e he (domainContainsGroup_iff.2 hm')
  · intro h
    obtain ⟨e, he, hen⟩ := (hP n).1 h.listed
    cases hd : matchingDomain domains candidate with
    | none =>
      have := longest_eq_none.1 hd e he
      rw [domainContainsGroup_iff.2 (hen ▸ h.above)] at this
      cases this
    | some d =>
      obtain ⟨hmem, hcontains, hmax⟩ := longest_eq_some hd
      have hd' : Chosen P candidate d.domain := by
        refine ⟨(hP _).2 ⟨d, hmem, rfl⟩, domainContainsGroup_iff.1 hcontains, fun m hm hm' => ?_⟩
        obtain ⟨e', he', rfl⟩ := (hP m).1 hm
        exact hmax e' he' (domainContainsGroup_iff.2 hm')
      rw [Option.map_some, hd'.unique h]

/-- The registered names that a list of a user has. -/
def MavenDB.Lists (db : MavenDB) (viewer : String) (includeAll : Bool) (n : String) : Prop :=
  ∃ d ∈ db.domains.rows, (includeAll = true ∨ db.lists viewer d = true) ∧ d.domain = n

theorem listMavenDomains_names (db : MavenDB) (username : String) (includeAll : Bool) (n : String) :
    db.Lists (db.viewerID username) includeAll n ↔
      ∃ d ∈ listMavenDomains db username includeAll, d.domain = n := by
  unfold MavenDB.Lists listMavenDomains
  simp only [List.mem_mergeSort, List.mem_map, List.mem_filter, Bool.or_eq_true]
  constructor
  · rintro ⟨d, hd, hl, rfl⟩
    exact ⟨_, ⟨d, ⟨hd, hl⟩, rfl⟩, rfl⟩
  · rintro ⟨_, ⟨d, ⟨hd, hl⟩, rfl⟩, rfl⟩
    exact ⟨d, hd, hl, rfl⟩

/-! ### Coordinates -/

theorem parseArtifactPath_parts {path : String} {c : MavenCoordinate} (h : parseArtifactPath path = some c) :
    ∃ groupParts filename, pathParts path = groupParts ++ [c.artifactID, c.version, filename] ∧
      c.groupID = String.intercalate "." groupParts ∧ 2 ≤ groupParts.length ∧
      (pathParts path).length ≤ maxMavenPathParts ∧
      (groupParts ++ [c.artifactID, c.version]).all validMavenCoordinatePart = true := by
  unfold parseArtifactPath at h
  dsimp only at h
  split at h
  · cases h
  rename_i hlen
  split at h
  · rename_i filename version artifactID groupRev hrev
    split_ifs at h with h1 h2 h3 h4
    cases h
    refine ⟨groupRev.reverse, filename, ?_, rfl, by simp at h2 ⊢; omega, by omega, ?_⟩
    · rw [← List.reverse_reverse (pathParts path), hrev]
      simp
    · simp only [not_or, Bool.not_eq_true', Bool.not_eq_false] at h2 h3
      simp only [List.all_append, List.all_cons, List.all_nil, Bool.and_true, Bool.and_eq_true]
      exact ⟨h3, h2.2.1, h2.2.2⟩
  · cases h

theorem lower_append (a b : String) : lower (a ++ b) = lower a ++ lower b := by
  simp [lower]

theorem pathNamespaceCandidate_eq {path : String} {c : MavenCoordinate} (h : parseArtifactPath path = some c) :
    pathNamespaceCandidate path = lower c.groupID ++ "." ++ lower (c.artifactID ++ "." ++ c.version) := by
  obtain ⟨groupParts, filename, hparts, hgroup, hlen, hmax, hvalid⟩ := parseArtifactPath_parts h
  have hdrop : (pathParts path).dropLast = groupParts ++ [c.artifactID, c.version] := by
    rw [hparts]
    simp [List.dropLast_append_of_ne_nil]
  have hne : groupParts ≠ [] := by
    rintro rfl
    simp at hlen
  unfold pathNamespaceCandidate
  dsimp only
  rw [hdrop, if_neg, hvalid, if_neg (by simp), String.intercalate_append_of_ne_nil hne (by simp), ← hgroup]
  · rw [lower_append, lower_append]
    simp [String.intercalate_cons_cons]
    rfl
  · rw [hparts] at hmax ⊢
    simp at hmax ⊢
    omega

theorem not_isSpace_of_coordinateChar {ch : Char} (h : coordinateChar ch = true) : isSpace ch = false := by
  by_contra hs
  have hs : isSpace ch = true := by simpa using hs
  simp only [isSpace, Bool.or_eq_true, Bool.and_eq_true, decide_eq_true_eq] at hs
  rcases hs with
    (((((((((((((rfl | rfl) | rfl) | rfl) | rfl) | rfl) | rfl) | rfl) | rfl) | ⟨hlo, hhi⟩) | rfl) | rfl) | rfl) | rfl) |
      rfl
  all_goals first
    | exact absurd h (by decide)
    | skip
  -- the spaces from U+2000 to U+200A are no ASCII
  simp only [coordinateChar] at h
  delta Char.isAlphanum Char.isAlpha Char.isUpper Char.isLower Char.isDigit at h
  simp only [Bool.or_eq_true, Bool.and_eq_true, decide_eq_true_eq, beq_iff_eq] at h
  have hlo : 8192 ≤ ch.val.toNat := hlo
  rcases h with ((h | rfl) | rfl) | rfl
  · have hbounds : 'A'.val.toNat = 65 ∧ 'Z'.val.toNat = 90 ∧ 'a'.val.toNat = 97 ∧ 'z'.val.toNat = 122 ∧
        '0'.val.toNat = 48 ∧ '9'.val.toNat = 57 := by decide
    simp only [ge_iff_le, UInt32.le_iff_toNat_le] at h
    omega
  all_goals exact absurd hlo (by decide)

theorem trimSpace_eq_self {s : String} (h : ∀ ch ∈ s.toList, isSpace ch = false) : trimSpace s = s := by
  have hdrop : ∀ l : List Char, (∀ ch ∈ l, isSpace ch = false) → l.dropWhile isSpace = l := by
    intro l hl
    cases l with
    | nil => rfl
    | cons ch l => rw [List.dropWhile_cons_of_neg (by simp [hl ch (by simp)])]
  unfold trimSpace
  rw [hdrop _ h, hdrop _ fun ch hch => h ch (by simpa using hch)]
  simp

theorem mem_of_mem_intercalate {sep : List Char} {ls : List (List Char)} {ch : Char} (h : ch ∈ sep.intercalate ls) :
    ch ∈ sep ∨ ∃ l ∈ ls, ch ∈ l := by
  induction ls with
  | nil => simp at h
  | cons l ls ih =>
    cases ls with
    | nil => exact .inr ⟨l, by simp, by simpa using h⟩
    | cons l' ls =>
      rw [List.intercalate_cons_cons, List.mem_append, List.mem_append] at h
      rcases h with (h | h) | h
      · exact .inr ⟨l, by simp, h⟩
      · exact .inl h
      · rcases ih h with h | ⟨m, hm, h⟩
        · exact .inl h
        · exact .inr ⟨m, by simp [hm], h⟩

theorem trimSpace_groupID {path : String} {c : MavenCoordinate} (h : parseArtifactPath path = some c) :
    trimSpace c.groupID = c.groupID := by
  obtain ⟨groupParts, filename, -, hgroup, -, -, hvalid⟩ := parseArtifactPath_parts h
  refine trimSpace_eq_self fun ch hch => not_isSpace_of_coordinateChar ?_
  have hparts : ∀ part ∈ groupParts, ∀ ch ∈ part.toList, coordinateChar ch = true := by
    intro part hpart ch hch
    have := List.all_eq_true.1 hvalid part (List.mem_append_left _ hpart)
    unfold validMavenCoordinatePart at this
    split at this
    · cases this
    · rename_i c' cs hl
      rw [hl] at hch
      simp only [Bool.and_eq_true] at this
      rcases List.mem_cons.1 hch with rfl | hch
      · simp [coordinateChar, this.1.1]
      · exact List.all_eq_true.1 this.2 ch hch
  rw [hgroup, String.toList_intercalate] at hch
  rcases mem_of_mem_intercalate hch with hch | ⟨l, hl, hch⟩
  · have : ch = '.' := by simpa using hch
    rw [this]
    rfl
  · obtain ⟨part, hpart, rfl⟩ := List.mem_map.1 hl
    exact hparts part hpart ch hch

/-! ### The checks agree -/

/-- The names that the checks choose for a path and its coordinate. -/
structure Agrees (db : MavenDB) (username path : String) (c : MavenCoordinate) : Prop where
  group : (mutationDomain db username path).map (·.domain) = (groupDomain db username c.groupID false).map (·.domain)
  administrator : (mutationDomain db username path).map (·.domain) = (groupDomain db username c.groupID true).map (·.domain)
  published : (mutationDomain db username path).map (·.domain) = (publishedDomain db username c).map (·.domain)
  approved : (mutationDomain db username path).map (·.domain) = (approvedDomain db c.groupID).map (·.domain)

/-- No domain on the user's list contains group and artifact without containing the group, and a domain that is not on
it does not have the last word about the group. -/
structure Nested (db : MavenDB) (username path : String) (c : MavenCoordinate) : Prop where
  artifact : ∀ d ∈ db.domains.rows, db.lists (db.viewerID username) d = true →
    domainContainsGroup d.domain (pathNamespaceCandidate path) = true →
      domainContainsGroup d.domain (lower c.groupID) = true
  hidden : ∀ d ∈ db.domains.rows, db.lists (db.viewerID username) d = false →
    domainContainsGroup d.domain (lower c.groupID) = true →
    ∃ e ∈ db.domains.rows, db.lists (db.viewerID username) e = true ∧
      domainContainsGroup e.domain (lower c.groupID) = true ∧ d.domain.utf8ByteSize < e.domain.utf8ByteSize

section Agree
variable {db : MavenDB} {username path : String} {c : MavenCoordinate}

theorem map_eq_of_chosen {x y : Option ListedDomain} {P Q : String → Prop} {a b : String}
    (hx : ∀ n, x.map (·.domain) = some n ↔ Chosen P a n) (hy : ∀ n, y.map (·.domain) = some n ↔ Chosen Q b n) :
    x.map (·.domain) = y.map (·.domain) ↔ ∀ n, Chosen P a n ↔ Chosen Q b n := by
  constructor
  · intro h n
    rw [← hx, ← hy, h]
  · intro h
    refine Option.ext fun n => ?_
    rw [hx, hy, h n]

theorem exists_chosen {viewer : String} {includeAll : Bool} {candidate m : String} (hm : db.Lists viewer includeAll m)
    (hc : Above '.' m.toList candidate.toList) : ∃ n, Chosen (db.Lists viewer includeAll) candidate n := by
  let names := (db.domains.rows.filter fun d => includeAll || db.lists viewer d).map (·.domain)
  have hnames : ∀ n, db.Lists viewer includeAll n ↔ n ∈ names := by
    intro n
    simp [names, MavenDB.Lists, and_assoc]
  cases hl : longest String.utf8ByteSize (fun n => domainContainsGroup n candidate) names with
  | none =>
    have := longest_eq_none.1 hl m ((hnames m).1 hm)
    rw [domainContainsGroup_iff.2 hc] at this
    cases this
  | some n =>
    obtain ⟨hmem, hcontains, hmax⟩ := longest_eq_some hl
    exact ⟨n, (hnames n).2 hmem, domainContainsGroup_iff.1 hcontains,
      fun k hk hk' => hmax k ((hnames k).1 hk) (domainContainsGroup_iff.2 hk')⟩

theorem above_candidate (h : parseArtifactPath path = some c) :
    Above '.' (lower c.groupID).toList (pathNamespaceCandidate path).toList := by
  rw [pathNamespaceCandidate_eq h, String.toList_append, String.toList_append]
  simpa using Above.append '.' (lower c.groupID).toList (lower (c.artifactID ++ "." ++ c.version)).toList

theorem chosen_path_iff (h : parseArtifactPath path = some c) (viewer : String) :
    (∀ n, Chosen (db.Lists viewer false) (pathNamespaceCandidate path) n ↔
      Chosen (db.Lists viewer false) (lower c.groupID) n) ↔ ∀ d ∈ db.domains.rows, db.lists viewer d = true →
      domainContainsGroup d.domain (pathNamespaceCandidate path) = true →
      domainContainsGroup d.domain (lower c.groupID) = true := by
  have hbelow := above_candidate h
  constructor
  · intro hall d hd hl hc
    have hc' := domainContainsGroup_iff.1 hc
    obtain ⟨n, hn⟩ := @exists_chosen db viewer false _ _ ⟨d, hd, .inr hl, rfl⟩ hc'
    have hn' := (hall n).1 hn
    -- `d` is no longer than `n`, which contains the group
    rcases hc'.total hn.above with hdn | hnd
    · exact domainContainsGroup_iff.2 (hdn.trans hn'.above)
    · by_cases hne : n = d.domain
      · rw [← hne]
        exact domainContainsGroup_iff.2 hn'.above
      · exact absurd (utf8ByteSize_lt hnd hne) (Nat.not_lt.2 (hn.longest _ ⟨d, hd, .inr hl, rfl⟩ hc'))
  · intro hnested n
    have hiff : ∀ m, db.Lists viewer false m →
        (Above '.' m.toList (pathNamespaceCandidate path).toList ↔ Above '.' m.toList (lower c.groupID).toList) := by
      rintro m ⟨d, hd, hl, rfl⟩
      have hl := hl.resolve_left (by simp)
      exact ⟨fun hm => domainContainsGroup_iff.1 (hnested d hd hl (domainContainsGroup_iff.2 hm)), fun hm =>
        hm.trans hbelow⟩
    exact ⟨fun hn => ⟨hn.listed, (hiff n hn.listed).1 hn.above, fun m hm hm' => hn.longest m hm ((hiff m hm).2 hm')⟩,
      fun hn => ⟨hn.listed, (hiff n hn.listed).2 hn.above, fun m hm hm' => hn.longest m hm ((hiff m hm).1 hm')⟩⟩

/-- The second half: matching the user's list instead of the full list. -/
theorem chosen_list_iff (viewer group : String) :
    (∀ n, Chosen (db.Lists viewer false) group n ↔ Chosen (db.Lists viewer true) group n) ↔
    ∀ d ∈ db.domains.rows, db.lists viewer d = false → domainContainsGroup d.domain group = true →
      ∃ e ∈ db.domains.rows, db.lists viewer e = true ∧ domainContainsGroup e.domain group = true ∧
        d.domain.utf8ByteSize < e.domain.utf8ByteSize := by
  constructor
  · intro hall d hd hl hc
    have hc' := domainContainsGroup_iff.1 hc
    obtain ⟨n, hn⟩ := @exists_chosen db viewer true _ _ ⟨d, hd, .inl rfl, rfl⟩ hc'
    obtain ⟨e, he, hle, rfl⟩ := ((hall n).2 hn).listed
    have hle := hle.resolve_left (by simp)
    refine ⟨e, he, hle, domainContainsGroup_iff.2 hn.above,
      lt_of_le_of_ne (hn.longest _ ⟨d, hd, .inl rfl, rfl⟩ hc') ?_⟩
    intro hsize
    obtain rfl := db.domains.eq_of_key hd he (eq_of_utf8ByteSize hc' hn.above hsize)
    rw [hl] at hle
    cases hle
  · intro hhidden n
    have hsub : ∀ m, db.Lists viewer false m → db.Lists viewer true m := by
      rintro m ⟨d, hd, -, rfl⟩
      exact ⟨d, hd, .inl rfl, rfl⟩
    constructor
    · intro hn
      refine ⟨hsub n hn.listed, hn.above, ?_⟩
      rintro _ ⟨d, hd, -, rfl⟩ hd'
      cases hl : db.lists viewer d with
      | true => exact hn.longest _ ⟨d, hd, .inr hl, rfl⟩ hd'
      | false =>
        obtain ⟨e, he, hle, hce, hlt⟩ := hhidden d hd hl (domainContainsGroup_iff.2 hd')
        exact hlt.le.trans (hn.longest _ ⟨e, he, .inr hle, rfl⟩ (domainContainsGroup_iff.1 hce))
    · intro hn
      obtain ⟨d, hd, -, rfl⟩ := hn.listed
      refine ⟨⟨d, hd, .inr ?_, rfl⟩, hn.above, fun m hm hm' => hn.longest m (hsub m hm) hm'⟩
      cases hl : db.lists viewer d with
      | true => rfl
      | false =>
        obtain ⟨e, he, hle, hce, hlt⟩ := hhidden d hd hl (domainContainsGroup_iff.2 hn.above)
        exact absurd hlt (Nat.not_lt.2 (hn.longest _ ⟨e, he, .inl rfl, rfl⟩ (domainContainsGroup_iff.1 hce)))

end Agree

/-- The upload check and the catalog choose the same domain exactly if the registered domains are nested as `Nested`
says. -/
theorem domains_agree_iff (db : MavenDB) (username path : String) (c : MavenCoordinate)
    (h : parseArtifactPath path = some c) : Agrees db username path c ↔ Nested db username path c := by
  have hlists := fun username includeAll => listMavenDomains_names db username includeAll
  -- the full list has the same names for everybody
  have hfull : ∀ v w, db.Lists v true = db.Lists w true := fun v w => by
    funext n
    simp [MavenDB.Lists]
  have hmutation := fun n => @matchingDomain_iff _ (pathNamespaceCandidate path) n _ (hlists username false)
  have hgroup := fun n => @matchingDomain_iff _ (lower (trimSpace c.groupID)) n _ (hlists username false)
  have hadmin := fun n => @matchingDomain_iff _ (lower (trimSpace c.groupID)) n _ (hlists username true)
  have hpublished := fun n => @matchingDomain_iff _ (lower c.groupID) n _ (hlists username true)
  have happroved := fun n => @matchingDomain_iff _ (lower c.groupID) n _ (hlists "" true)
  rw [trimSpace_groupID h] at hgroup hadmin
  rw [hfull (db.viewerID "") (db.viewerID username)] at happroved
  have hpath := @chosen_path_iff db _ _ h (db.viewerID username)
  have hlist := @chosen_list_iff db (db.viewerID username) (lower c.groupID)
  have hagree : ∀ {y : Option ListedDomain},
      (∀ n, y.map (·.domain) = some n ↔ Chosen (db.Lists (db.viewerID username) true) (lower c.groupID) n) →
      ((mutationDomain db username path).map (·.domain) = y.map (·.domain) ↔
        ∀ n, Chosen (db.Lists (db.viewerID username) false) (pathNamespaceCandidate path) n ↔
          Chosen (db.Lists (db.viewerID username) true) (lower c.groupID) n) := fun hy => map_eq_of_chosen hmutation hy
  constructor
  · intro ha
    have hg := ha.group
    rw [groupDomain, trimSpace_groupID h] at hg
    have h1 := (map_eq_of_chosen hmutation hgroup).1 hg
    have h2 := (hagree hpublished).1 ha.published
    exact ⟨hpath.1 h1, hlist.1 fun n => (h1 n).symm.trans (h2 n)⟩
  · intro hn
    have h1 := hpath.2 hn.artifact
    have h2 := hlist.2 hn.hidden
    have h12 := fun n => (h1 n).trans (h2 n)
    refine ⟨?_, ?_, (hagree hpublished).2 h12, (hagree happroved).2 h12⟩
    · rw [groupDomain, trimSpace_groupID h]
      exact (map_eq_of_chosen hmutation hgroup).2 h1
    · rw [groupDomain, trimSpace_groupID h]
      exact (hagree hadmin).2 h12

/-- Two verified domains of nobody in particular. -/
def twoDomains (outer inner : String) (h : outer ≠ inner) : MavenDB where
  domains := ⟨[⟨outer, "", true, 0, "", 0⟩, ⟨inner, "", true, 0, "", 0⟩], by simp [h]⟩
  artifacts := .empty
  locks := []
  domainMember := fun _ _ => none
  superTeamRole := fun _ _ => none
  userID := some

theorem twoDomains_lists {outer inner viewer n : String} {includeAll : Bool} (h : outer ≠ inner) :
    (twoDomains outer inner h).Lists viewer includeAll n ↔ n = outer ∨ n = inner := by
  simp [MavenDB.Lists, MavenDB.lists, twoDomains, @eq_comm _ n]

theorem domains_agree_beside :
    parseArtifactPath "com/example/lib/1.0/lib-1.0.jar" = some ⟨"com.example", "lib", "1.0"⟩ ∧
    Agrees (twoDomains "com.example" "com.example.app" (by decide)) "alice" "com/example/lib/1.0/lib-1.0.jar"
      ⟨"com.example", "lib", "1.0"⟩ := by
  refine ⟨by decide, (domains_agree_iff _ _ _ _ (by decide)).2 ⟨?_, ?_⟩⟩
  · simp only [twoDomains, List.forall_mem_cons]
    decide
  · simp [twoDomains, MavenDB.lists]

/-- Whoever may upload to `com.example.lib` may upload the artifact `lib` of `com.example`, which is then the catalog's
and the other checks' domain of the file. -/
theorem nested_domains_disagree :
    isMavenPublicationPath "com/example/lib/1.0/lib-1.0.jar" = true ∧
    parseArtifactPath "com/example/lib/1.0/lib-1.0.jar" = some ⟨"com.example", "lib", "1.0"⟩ ∧
    (mutationDomain (twoDomains "com.example" "com.example.lib" (by decide)) "alice"
      "com/example/lib/1.0/lib-1.0.jar").map (·.domain) = some "com.example.lib" ∧
    (groupDomain (twoDomains "com.example" "com.example.lib" (by decide)) "alice" "com.example" false).map (·.domain) =
      some "com.example" ∧
    (publishedDomain (twoDomains "com.example" "com.example.lib" (by decide)) "alice"
      ⟨"com.example", "lib", "1.0"⟩).map (·.domain) = some "com.example" ∧
    (approvedDomain (twoDomains "com.example" "com.example.lib" (by decide)) "com.example").map (·.domain) =
      some "com.example" ∧
    ¬ Agrees (twoDomains "com.example" "com.example.lib" (by decide)) "alice" "com/example/lib/1.0/lib-1.0.jar"
      ⟨"com.example", "lib", "1.0"⟩ := by
  have hne : "com.example" ≠ "com.example.lib" := by decide
  have hlists := fun username includeAll => listMavenDomains_names (twoDomains "com.example" "com.example.lib" hne) username
    includeAll
  have hpath : ∀ {viewer}, Chosen ((twoDomains "com.example" "com.example.lib" hne).Lists viewer false)
      (pathNamespaceCandidate "com/example/lib/1.0/lib-1.0.jar") "com.example.lib" := by
    intro viewer
    refine ⟨(twoDomains_lists hne).2 (.inr rfl), domainContainsGroup_iff.1 (by decide), fun m hm _ => ?_⟩
    rcases (twoDomains_lists hne).1 hm with rfl | rfl <;> decide
  have hgroup : ∀ {viewer includeAll}, Chosen ((twoDomains "com.example" "com.example.lib" hne).Lists viewer includeAll)
      "com.example" "com.example" := by
    intro viewer includeAll
    refine ⟨(twoDomains_lists hne).2 (.inl rfl), domainContainsGroup_iff.1 (by decide), fun m hm hm' => ?_⟩
    rcases (twoDomains_lists hne).1 hm with rfl | rfl
    · exact le_refl _
    · exact absurd (domainContainsGroup_iff.2 hm') (by decide)
  have hmutation := (matchingDomain_iff (hlists "alice" false)).2 hpath
  have hasked := (matchingDomain_iff (hlists "alice" false)).2 hgroup
  have hlower : lower (trimSpace "com.example") = "com.example" := by decide
  have hlower' : lower "com.example" = "com.example" := by decide
  have hgroupDomain : (groupDomain (twoDomains "com.example" "com.example.lib" hne) "alice" "com.example" false).map
      (·.domain) = some "com.example" := by
    rw [groupDomain, hlower]
    exact hasked
  refine ⟨by decide, by decide, hmutation, hgroupDomain, ?_, ?_, ?_⟩
  · rw [publishedDomain, hlower']
    exact (matchingDomain_iff (hlists "alice" true)).2 hgroup
  · rw [approvedDomain, hlower']
    exact (matchingDomain_iff (hlists "" true)).2 hgroup
  · intro h
    have := h.group
    rw [hgroupDomain] at this
    exact absurd (hmutation.symm.trans this) (by decide)

end Renop.Maven
