import Renop.AccountLife

/-!
# A new account starts with nothing

The invariant of a run: an account has a profile, and for a free name there is neither a profile nor a row that would
come to an account of the name. Each call keeps it when it is orderly, and it is all that `CreateToken` needs.
-/

namespace Renop.AccountTables

open Sql
open Renop.Accounts
open Renop.SuperTeam (Text)
open Renop.Cargo (Key Profile sanitized maxTokenNameLen)

variable {text : Text} {hash : String → String} {s s' : Site} {db db' : AccountDB} {name : String}

/-! ### Names of profiles and accounts -/

theorem profileByName_eq_none : profileByName db name = none ↔ ∀ p ∈ db.profiles.rows, p.username ≠ name := by
  simp [profileByName]

/-- The call makes an account of the name, and no other one. -/
structure Enrols (db db' : AccountDB) (name : String) : Prop where
  tokens : ∀ n, (db'.tokens.find? n).isSome = true ↔ n = name ∨ (db.tokens.find? n).isSome = true
  profiles : ∀ n, profileByName db' n = none ↔ n ≠ name ∧ profileByName db n = none

theorem profileByName_insertProfile {profile : Profile} (h : insertProfile db profile = .ok db') (n : String) :
    profileByName db' n = none ↔ n ≠ profile.username ∧ profileByName db n = none := by
  obtain ⟨-, -, hrows, -⟩ := insertProfile_ok h
  rw [profileByName_eq_none, profileByName_eq_none, hrows]
  constructor
  · intro hnone
    exact ⟨(hnone profile (by simp)).symm, fun p hp => hnone p (List.mem_append_left _ hp)⟩
  · rintro ⟨hne, hnone⟩ p hp
    rcases List.mem_append.1 hp with hp | hp
    · exact hnone p hp
    · rw [List.mem_singleton.1 hp]
      exact hne.symm

theorem enrols_createToken {token : Token} {newID : String} {now : Int} (h : createToken text db token newID now = .ok db') :
    ∃ n, Enrols db db' n := by
  obtain ⟨n, -, h⟩ := bind_ok.1 h
  obtain ⟨ban, -, h⟩ := bind_ok.1 h
  obtain ⟨-, h⟩ := require_bind_ok.1 h
  obtain ⟨tokens, htokens, h⟩ := bind_ok.1 h
  refine ⟨n, fun m => ?_, fun m => profileByName_insertProfile h m⟩
  obtain ⟨-, -, -, hsame⟩ := insertProfile_ok h
  rw [hsame, Table.find?_insert htokens]
  by_cases hm : m = n
  · simp [hm]
  · simp [hm]

theorem enrols_saveTokenInTx {token : Token} {now : Int} {n : String} (h : saveTokenInTx text db n token now = .ok db') :
    (∀ m, (db'.tokens.find? m).isSome = true ↔ m = n ∨ (db.tokens.find? m).isSome = true) ∧
      db'.profiles = db.profiles := by
  obtain ⟨ban, -, h⟩ := bind_ok.1 h
  exact ⟨fun m => find?_upsertToken h m, upsertToken_profiles h⟩

theorem enrols_saveToken {token : Token} {newID : String} {now : Int} (h : saveToken text db token newID now = .ok db') :
    db' = db ∨ ∃ n, Enrols db db' n := by
  unfold saveToken at h
  dsimp only at h
  split at h
  · cases h
    exact .inl rfl
  · rename_i hname
    refine .inr ⟨text.toLower (sanitized text.toText token.name maxTokenNameLen), ?_⟩
    split at h
    · obtain ⟨db₁, h₁, h⟩ := bind_ok.1 h
      obtain ⟨htokens, hprofiles⟩ := enrols_saveTokenInTx h
      obtain ⟨-, -, -, hsame⟩ := insertProfile_ok h₁
      refine ⟨fun m => ?_, fun m => ?_⟩
      · rw [htokens, hsame]
      · have hdb : profileByName db' m = profileByName db₁ m := congrArg (fun t => List.find? _ (Table.rows t)) hprofiles
        rw [hdb]
        exact profileByName_insertProfile h₁ m
    · rename_i profile hprofile
      obtain ⟨_, -, h⟩ := bind_ok.1 h
      obtain ⟨_, hpure, h⟩ := bind_ok.1 h
      cases hpure
      obtain ⟨htokens, hprofiles⟩ := enrols_saveTokenInTx h
      refine ⟨htokens, fun m => ?_⟩
      have hdb : profileByName db' m = profileByName db m := congrArg (fun t => List.find? _ (Table.rows t)) hprofiles
      rw [hdb]
      refine ⟨fun hm => ⟨?_, hm⟩, fun hm => hm.2⟩
      rintro rfl
      rw [hprofile] at hm
      cases hm

theorem ensureUserProfile_ok {username newID userID : String}
    (h : ensureUserProfile text db username newID = .ok (userID, db')) :
    db' = db ∨ insertProfile db ⟨newID, text.toLower (text.trimSpace username)⟩ = .ok db' := by
  obtain ⟨-, h⟩ := require_bind_ok.1 h
  split at h
  · cases h
    exact .inl rfl
  · obtain ⟨db₁, h₁, h⟩ := bind_ok.1 h
    cases h
    exact .inr h₁

/-! ### The invariant -/

/-- Nothing waits for an account of the name. -/
structure Site.Vacant (text : Text) (s : Site) (name : String) : Prop where
  profile : profileByName s.toAccountDB name = none
  rows : ∀ u ∈ claims, ∀ r ∈ s.rows u.1, r.names u.2 ≠ name
  images : ∀ r ∈ s.rows .dockerImages, text.equalFold (r.names .publisher) name = false

structure Site.Inv (text : Text) (s : Site) : Prop where
  registered : ∀ n, (s.tokens.find? n).isSome = true → profileByName s.toAccountDB n ≠ none
  vacant : ∀ n, Nameable text n → s.tokens.find? n = none → s.Vacant text n

theorem Site.Inv.congr (h : s.Inv text) (hrows : s'.rows = s.rows) (haccounts : s'.toAccountDB = s.toAccountDB) :
    s'.Inv text := by
  constructor
  · rw [haccounts]
    exact h.registered
  · intro n hn hfree
    rw [haccounts] at hfree
    obtain ⟨hprofile, hclaims, himages⟩ := h.vacant n hn hfree
    exact ⟨by rw [haccounts, hprofile], by rw [hrows]; exact hclaims, by rw [hrows]; exact himages⟩

theorem Site.Inv.of_names (h : s.Inv text) (hrows : s'.rows = s.rows)
    (htokens : ∀ n, s'.tokens.find? n = none → s.tokens.find? n = none)
    (hregistered : ∀ n, (s'.tokens.find? n).isSome = true → profileByName s'.toAccountDB n ≠ none)
    (hprofiles : ∀ n, Nameable text n → s'.tokens.find? n = none → profileByName s.toAccountDB n = none →
      profileByName s'.toAccountDB n = none) : s'.Inv text := by
  refine ⟨hregistered, fun n hn hfree => ?_⟩
  obtain ⟨hprofile, hclaims, himages⟩ := h.vacant n hn (htokens n hfree)
  refine ⟨hprofiles n hn hfree hprofile, ?_, ?_⟩
  · rw [hrows]
    exact hclaims
  · rw [hrows]
    exact himages

theorem Site.Inv.of_enrols (h : s.Inv text) (hrows : s'.rows = s.rows) (henrols : Enrols s.toAccountDB s'.toAccountDB name) :
    s'.Inv text := by
  have hfree : ∀ n, s'.tokens.find? n = none → n ≠ name ∧ s.tokens.find? n = none := by
    intro n hn
    have hnone : ¬ (s'.tokens.find? n).isSome = true := by simp [hn]
    rw [henrols.tokens, not_or] at hnone
    exact ⟨hnone.1, by simpa using hnone.2⟩
  refine h.of_names hrows (fun n hn => (hfree n hn).2) (fun n hn hnone => ?_) fun n _ hn hnone => ?_
  · obtain ⟨hne, hnone⟩ := (henrols.profiles n).1 hnone
    rcases (henrols.tokens n).1 hn with heq | hn
    · exact hne heq
    · exact h.registered n hn hnone
  · exact (henrols.profiles n).2 ⟨(hfree n hn).1, hnone⟩

/-! ### Renaming -/

theorem profileByName_renameProfile_self {n : String} (h : renameProfile db n n = .ok db') (m : String) :
    profileByName db' m = none ↔ profileByName db m = none := by
  obtain ⟨-, h⟩ := require_bind_ok.1 h
  cases h
  have hid : ∀ p : Profile, (if p.username = n then { p with username := n } else p) = p := by
    intro p
    split
    · rename_i hp
      rw [← hp]
    · rfl
  rw [profileByName_eq_none, profileByName_eq_none, Table.rows_update]
  simp [hid]

theorem writeProfile_self {store store' : Store} {profile : Option Profile} {n userID : String} {window : Int × Nat}
    (hprofile : profileByName store.toAccountDB n = profile) (h : writeProfile store profile userID n window = .ok store') :
    store'.rows = store.rows ∧ store'.tokens = store.tokens ∧
      ∀ m, profileByName store'.toAccountDB m = none ↔ m ≠ n ∧ profileByName store.toAccountDB m = none := by
  cases profile with
  | none =>
    obtain ⟨accounts, hinsert, rfl⟩ := withAccounts_ok h
    obtain ⟨-, -, -, htokens⟩ := insertProfile_ok hinsert
    exact ⟨rfl, htokens, profileByName_insertProfile hinsert⟩
  | some p =>
    obtain ⟨accounts, hrename, rfl⟩ := withAccounts_ok h
    have hname : p.username = n := by simpa using List.find?_some hprofile
    rw [hname] at hrename
    refine ⟨rfl, ?_, fun m => (profileByName_renameProfile_self hrename m).trans ⟨fun hm => ⟨?_, hm⟩,
      fun hm => hm.2⟩⟩
    · obtain ⟨-, hrename⟩ := require_bind_ok.1 hrename
      cases hrename
      rfl
    · rintro rfl
      rw [hprofile] at hm
      cases hm

/-- A call that does not change the name saves the account. -/
theorem RenameCall.run_same {clickHouse : Bool} {refused : TableName × Column → Bool} {call : RenameCall}
    {store store' : Store}
    (heq : call.oldName text = call.newName text) (h : call.run clickHouse refused text store = .ok store') :
    store'.rows = store.rows ∧ (store'.toAccountDB = store.toAccountDB ∨ ∃ n,
      Enrols store.toAccountDB store'.toAccountDB
      n) := by
  cases call with
  | renameToken oldName newName token newID now =>
    unfold run AccountTables.renameToken at h
    have hsame : text.toLower (sanitized text.toText oldName maxTokenNameLen) =
      text.toLower (sanitized text.toText newName maxTokenNameLen) := heq
    obtain ⟨-, h⟩ := require_bind_ok.1 h
    obtain ⟨-, h⟩ := require_bind_ok.1 h
    rw [if_pos hsame] at h
    obtain ⟨accounts, hsave, rfl⟩ := withAccounts_ok h
    exact ⟨rfl, enrols_saveToken hsave⟩
  | updateUserProfile oldUsername newUsername nickname permissions changedAt newID now =>
    unfold run AccountTables.updateUserProfile at h
    have hsame : text.toLower (sanitized text.toText oldUsername maxTokenNameLen) =
      text.toLower (sanitized text.toText newUsername maxTokenNameLen) := heq
    obtain ⟨-, h⟩ := require_bind_ok.1 h
    dsimp only at h
    have hrest : ∀ {profile : Option Profile}, profileByName store.toAccountDB
      (text.toLower (sanitized text.toText newUsername maxTokenNameLen)) =
        profile → ∀ {token : Token} {userID : String} {window : Int × Nat},
        (do
          let s ← store.withAccounts (saveTokenInTx text store.toAccountDB
            (text.toLower (sanitized text.toText newUsername maxTokenNameLen)) token now)
          writeProfile s profile userID (text.toLower (sanitized text.toText newUsername maxTokenNameLen)) window) =
            .ok store' →
        store'.rows = store.rows ∧ Enrols store.toAccountDB store'.toAccountDB
          (text.toLower (sanitized text.toText newUsername maxTokenNameLen)) := by
      intro profile hprofile token userID window h
      obtain ⟨store₁, h₁, h⟩ := bind_ok.1 h
      obtain ⟨accounts, hsave, rfl⟩ := withAccounts_ok h₁
      obtain ⟨htokens, hprofiles⟩ := enrols_saveTokenInTx hsave
      have hdb : ∀ m, profileByName accounts m = profileByName store.toAccountDB m :=
        fun m => congrArg (fun t => List.find? _ (Table.rows t)) hprofiles
      obtain ⟨hrows, hkept, hnames⟩ := writeProfile_self ((hdb _).trans hprofile) h
      refine ⟨hrows, fun m => ?_, fun m => ?_⟩
      · rw [hkept]
        exact htokens m
      · rw [hnames]
        exact and_congr_right fun _ => by rw [hdb]
    rw [hsame] at h
    cases hprofile : profileByName store.toAccountDB (text.toLower (sanitized text.toText newUsername maxTokenNameLen)) with
    | none =>
      simp only [hprofile] at h
      obtain ⟨current, -, h⟩ := bind_ok.1 h
      rw [if_pos trivial] at h
      obtain ⟨hrows, henrols⟩ := hrest hprofile h
      exact ⟨hrows, .inr ⟨_, henrols⟩⟩
    | some p =>
      simp only [hprofile] at h
      obtain ⟨_, -, h⟩ := bind_ok.1 h
      obtain ⟨current, -, h⟩ := bind_ok.1 h
      rw [if_pos trivial] at h
      obtain ⟨hrows, henrols⟩ := hrest hprofile h
      exact ⟨hrows, .inr ⟨_, henrols⟩⟩

theorem mem_foldl_insertGPGKey {copies : List (Row .userGPGKeys)} :
    ∀ {keys : List (Row .userGPGKeys)} {r : Row .userGPGKeys}, r ∈ copies.foldl insertGPGKey keys → r ∈ keys ∨
    r ∈ copies := by
  induction copies with
  | nil =>
    intro keys r hr
    exact .inl hr
  | cons copy copies ih =>
    intro keys r hr
    rcases ih hr with hr | hr
    · rcases List.mem_append.1 hr with hr | hr
      · exact .inl (List.mem_filter.1 hr).1
      · exact .inr (List.mem_cons.2 (.inl (List.mem_singleton.1 hr)))
    · exact .inr (List.mem_cons_of_mem _ hr)

theorem RenameCall.run_none {clickHouse : Bool} {refused : TableName × Column → Bool} {call : RenameCall}
    {store store' : Store}
    (hne : call.oldName text ≠ call.newName text) (hnone : store.tokens.find? (call.oldName text) = none) :
    call.run clickHouse refused text store ≠ .ok store' := by
  intro h
  cases call with
  | renameToken oldName newName token newID now =>
    unfold run AccountTables.renameToken at h
    have hdiff : text.toLower (sanitized text.toText oldName maxTokenNameLen) ≠
      text.toLower (sanitized text.toText newName maxTokenNameLen) := hne
    obtain ⟨-, h⟩ := require_bind_ok.1 h
    obtain ⟨-, h⟩ := require_bind_ok.1 h
    rw [if_neg hdiff] at h
    obtain ⟨_, hcurrent, -⟩ := bind_ok.1 h
    obtain ⟨_, -, hcurrent⟩ := bind_ok.1 hcurrent
    obtain ⟨_, -, hcurrent⟩ := bind_ok.1 hcurrent
    obtain ⟨found, hfound, -⟩ := bind_ok.1 hcurrent
    have hsome := orError_ok.1 hfound
    have hnone' : store.tokens.find? (text.toLower (sanitized text.toText oldName maxTokenNameLen)) = none := hnone
    rw [hnone'] at hsome
    cases hsome
  | updateUserProfile oldUsername newUsername nickname permissions changedAt newID now =>
    have hnone' : store.tokens.find? (text.toLower (sanitized text.toText oldUsername maxTokenNameLen)) = none := hnone
    unfold run AccountTables.updateUserProfile at h
    obtain ⟨-, h⟩ := require_bind_ok.1 h
    dsimp only at h
    rw [hnone'] at h
    split at h
    · cases h
    · obtain ⟨_, -, h⟩ := bind_ok.1 h
      cases h

section Renamed
variable {clickHouse : Bool} {store store' : Store} {oldName newName : String} {ban : Option Ban}

theorem Renamed.row_origin (h : Renamed clickHouse text store store' oldName newName ban) {t : TableName}
    (ht : t ≠ .reviewTaskPayloads) {r : Row t} (hr : r ∈ store'.rows t) {c : Column} (hc : c ∈ columns t) :
    r.names c = newName ∨ ∃ r₀ ∈ store.rows t, r₀.names c = r.names c := by
  have hrenamed : ∀ {us : List (TableName × Column)}, (t, c) ∈ us →
    r ∈ (store.rows t).map (Row.renamed oldName newName us) →
      r.names c = newName ∨ ∃ r₀ ∈ store.rows t, r₀.names c = r.names c := by
    intro us hus hr
    obtain ⟨r₀, hr₀, rfl⟩ := List.mem_map.1 hr
    have hname : (r₀.renamed oldName newName us).names c = relabel oldName newName (r₀.names c) := if_pos hus
    by_cases hold : r₀.names c = oldName
    · rw [hname, hold]
      exact .inl relabel_self
    · exact .inr ⟨r₀, hr₀, by rw [hname, relabel_of_ne hold]⟩
  by_cases hgpg : t = .userGPGKeys
  · subst hgpg
    obtain rfl : c = .username := by simpa [columns] using hc
    rw [h.keys] at hr
    split_ifs at hr
    · rcases mem_foldl_insertGPGKey (List.mem_filter.1 hr).1 with hr | hr
      · exact .inr ⟨r, hr, rfl⟩
      · obtain ⟨r₀, -, rfl⟩ := List.mem_map.1 hr
        exact .inl (by simp)
    · exact hrenamed (by decide) hr
  · rw [h.rows t hgpg] at hr
    exact hrenamed (mem_columns_updates ht hgpg hc) hr

end Renamed

theorem claims_columns : ∀ u ∈ claims, u.2 ∈ columns u.1 ∧ u.1 ≠ .reviewTaskPayloads := by decide

theorem Site.Inv.of_renamed {clickHouse : Bool} {oldName newName : String} {ban : Option Ban} (hi : s.Inv text)
    (hne : oldName ≠ newName) (h : Renamed clickHouse text s.toStore s'.toStore oldName newName ban)
    (himages : ∀ r ∈ s.rows .dockerImages, ∀ n, Nameable text n → n ≠ newName →
      n = oldName ∨ r.names .publisher = oldName ∧ s.tokens.find? n = none →
      text.equalFold (relabel oldName newName (r.names .publisher)) n = false) : s'.Inv text := by
  obtain ⟨token, htoken, -, hnew⟩ := h.account
  have hnew' : s'.tokens.find? newName ≠ none := by
    intro hnone
    rw [hnone] at hnew
    cases hnew
  constructor
  · intro n hn
    by_cases hold : n = oldName
    · rw [hold, h.vacant] at hn
      cases hn
    · by_cases heq : n = newName
      · have hprofile := hi.registered oldName (by rw [htoken]; rfl)
        rw [heq, ← @relabel_self oldName newName, h.profileByName_relabel hne]
        simpa using hprofile
      · rw [h.others n hold heq] at hn
        have hprofile := hi.registered n hn
        rw [← relabel_of_ne hold, h.profileByName_relabel heq]
        simpa using hprofile
  · intro n hn hfree
    have heq : n ≠ newName := by
      rintro rfl
      exact hnew' hfree
    have hpublisher : ∀ r ∈ s'.rows .dockerImages, ∃ r₀ ∈ s.rows .dockerImages,
        r.names .publisher = relabel oldName newName (r₀.names .publisher) := by
      intro r hr
      rw [h.rows _ (by decide)] at hr
      obtain ⟨r₀, hr₀, rfl⟩ := List.mem_map.1 hr
      exact ⟨r₀, hr₀, rfl⟩
    by_cases hold : n = oldName
    · rw [hold]
      refine ⟨h.profileByName_oldName hne, fun u hu r hr => ?_, fun r hr => ?_⟩
      · exact h.rows_ne_old hne (claims_columns u hu).2 r hr u.2 (claims_columns u hu).1
      · obtain ⟨r₀, hr₀, hname⟩ := hpublisher r hr
        rw [hname]
        exact himages r₀ hr₀ oldName (hold ▸ hn) hne (.inl rfl)
    · have hfree₀ : s.tokens.find? n = none := by rwa [h.others n hold heq] at hfree
      obtain ⟨hprofile, hrows, hbefore⟩ := hi.vacant n hn hfree₀
      refine ⟨?_, fun u hu r hr hname => ?_, fun r hr => ?_⟩
      · rw [← relabel_of_ne hold, h.profileByName_relabel heq, hprofile]
        rfl
      · rcases h.row_origin (claims_columns u hu).2 hr (claims_columns u hu).1 with horigin | ⟨r₀, hr₀, horigin⟩
        · exact heq (hname.symm.trans horigin)
        · exact hrows u hu r₀ hr₀ (horigin.trans hname)
      · obtain ⟨r₀, hr₀, hname⟩ := hpublisher r hr
        rw [hname]
        by_cases hmine : r₀.names .publisher = oldName
        · exact himages r₀ hr₀ n hn heq (.inr ⟨hmine, hfree₀⟩)
        · rw [relabel_of_ne hmine]
          exact hbefore r₀ hr₀

/-! ### The steps -/

theorem keptRows_claims {n userID : String} : ∀ u ∈ claims, ∀ r ∈ s.keptRows n userID u.1, r ∈ s.rows u.1 ∧
    r.names u.2 ≠ n := by
  intro u hu r hr
  simp only [claims, List.mem_cons, List.not_mem_nil, or_false] at hu
  rcases hu with rfl | rfl | rfl | rfl | rfl | rfl | rfl <;>
    simp_all [Site.keptRows]

theorem Site.Inv.of_retired (hi : s.Inv text) {n userID : String} {retiredAt : Int} (hrows : s'.rows = s.keptRows n userID)
    (haccounts : s'.toAccountDB = dropAccount s.toAccountDB n true retiredAt) : s'.Inv text := by
  have htokens : ∀ m, (s'.tokens.find? m).isSome = (s.tokens.find? m).isSome := by
    intro m
    rw [haccounts]
    unfold dropAccount
    rw [if_pos rfl, Table.find?_update, Option.isSome_map]
  have hprofiles : ∀ m, profileByName s'.toAccountDB m = profileByName s.toAccountDB m := by
    intro m
    rw [haccounts]
    rfl
  constructor
  · intro m hm
    rw [htokens] at hm
    rw [hprofiles]
    exact hi.registered m hm
  · intro m hm hfree
    have hfree₀ : s.tokens.find? m = none := by
      rw [← Option.not_isSome_iff_eq_none, ← htokens, hfree]
      decide
    obtain ⟨hprofile, hbefore, himages⟩ := hi.vacant m hm hfree₀
    refine ⟨(hprofiles m).trans hprofile, fun u hu r hr => ?_, ?_⟩
    · rw [hrows] at hr
      exact hbefore u hu r (keptRows_claims u hu r hr).1
    · rw [hrows]
      exact himages

/-- With the account goes all that is found by its name, but for the publishers of images. -/
theorem Site.Inv.of_deleted (hi : s.Inv text) {n userID : String} (retiredAt : Int) (hrows : s'.rows = s.keptRows n userID)
    (haccounts : s'.toAccountDB = dropAccount s.toAccountDB n false retiredAt)
    (hpublishers : Nameable text n → ∀ r ∈ s.rows .dockerImages, text.equalFold (r.names .publisher) n = false) :
      s'.Inv text := by
  have htokens : ∀ m, m ≠ n → s'.tokens.find? m = s.tokens.find? m := by
    intro m hm
    rw [haccounts]
    show Table.find? (Table.delete _ _) m = _
    refine Table.find?_delete_of fun t ht => ?_
    simpa [ht] using hm
  have hgone : s'.tokens.find? n = none := by
    rw [haccounts]
    show Table.find? (Table.delete _ _) n = _
    rw [Table.find?_delete, Option.filter_eq_none_iff]
    intro t ht
    simp [(Table.find?_eq_some.1 ht).2]
  have hprofiles : ∀ m, profileByName s'.toAccountDB m = none ↔ m = n ∨ profileByName s.toAccountDB m = none := by
    intro m
    rw [haccounts, profileByName_eq_none, profileByName_eq_none]
    show (∀ p ∈ (s.profiles.rows.filter fun p => !decide (p.username = n)), _) ↔ _
    constructor
    · intro hnone
      by_cases hm : m = n
      · exact .inl hm
      · refine .inr fun p hp hname => hnone p (List.mem_filter.2 ⟨hp, ?_⟩) hname
        simpa [hname] using hm
    · rintro (rfl | hnone) p hp
      · simpa using (List.mem_filter.1 hp).2
      · exact hnone p (List.mem_filter.1 hp).1
  constructor
  · intro m hm hnone
    have hmn : m ≠ n := by
      rintro rfl
      rw [hgone] at hm
      cases hm
    rw [htokens m hmn] at hm
    exact hi.registered m hm (((hprofiles m).1 hnone).resolve_left hmn)
  · intro m hm hfree
    by_cases hmn : m = n
    · refine ⟨(hprofiles m).2 (.inl hmn), fun u hu r hr => ?_, ?_⟩
      · rw [hrows] at hr
        rw [hmn]
        exact (keptRows_claims u hu r hr).2
      · rw [hrows, hmn]
        exact hpublishers (hmn ▸ hm)
    · rw [htokens m hmn] at hfree
      obtain ⟨hprofile, hbefore, himages⟩ := hi.vacant m hm hfree
      refine ⟨(hprofiles m).2 (.inr hprofile), fun u hu r hr => ?_, ?_⟩
      · rw [hrows] at hr
        exact hbefore u hu r (keptRows_claims u hu r hr).1
      · rw [hrows]
        exact himages

theorem withStore_ok {r : Except AccountError Store} (h : s.withStore r = .ok s') :
    ∃ store, r = .ok store ∧ s' = { s with toStore := store } := by
  obtain ⟨store, hr, rfl⟩ := map_ok.1 h
  exact ⟨store, hr, rfl⟩

theorem deleteToken_inv {n : String} {retire : Bool} {retiredAt : Int} {eligible : Bool} (hi : s.Inv text)
    (horderly : (SiteCall.deleteToken n retire retiredAt eligible).Orderly text s)
    (h : s.deleteToken text n retire retiredAt eligible = .ok s') : s'.Inv text := by
  unfold Site.deleteToken at h
  obtain ⟨-, h⟩ := require_bind_ok.1 h
  split at h
  · cases h
    exact hi
  · obtain ⟨⟨profile, token⟩, hcurrent, h⟩ := bind_ok.1 h
    obtain ⟨-, h⟩ := require_bind_ok.1 h
    obtain ⟨hothers, h⟩ := require_bind_ok.1 h
    obtain ⟨-, h⟩ := require_bind_ok.1 h
    cases h
    cases retire with
    | true => exact hi.of_retired rfl rfl
    | false =>
      refine hi.of_deleted retiredAt rfl rfl fun hn => horderly rfl hn fun p hp => ?_
      obtain ⟨profile', hprofile, hcurrent⟩ := bind_ok.1 hcurrent
      obtain ⟨_, -, hcurrent⟩ := bind_ok.1 hcurrent
      obtain ⟨token', -, hcurrent⟩ := bind_ok.1 hcurrent
      obtain ⟨-, hcurrent⟩ := require_bind_ok.1 hcurrent
      cases hcurrent
      cases hp.symm.trans (orError_ok.1 hprofile)
      exact hothers.resolve_left nofun

theorem run_inv {call : SiteCall} (hi : s.Inv text) (horderly : call.Orderly text s) (h : call.run text hash s = .ok s') :
    s'.Inv text := by
  cases call with
  | createToken token secrets newID now =>
    obtain ⟨s₁, h₁, h⟩ := bind_ok.1 h
    obtain ⟨store, hstore, rfl⟩ := withStore_ok h₁
    obtain ⟨accounts, haccounts, rfl⟩ := withAccounts_ok hstore
    cases h
    obtain ⟨n, henrols⟩ := enrols_createToken haccounts
    exact hi.of_enrols rfl henrols
  | saveToken token newID now =>
    obtain ⟨store, hstore, rfl⟩ := withStore_ok h
    obtain ⟨accounts, haccounts, rfl⟩ := withAccounts_ok hstore
    rcases enrols_saveToken haccounts with rfl | ⟨n, henrols⟩
    · exact hi
    · exact hi.of_enrols rfl henrols
  | rename call clickHouse refused =>
    obtain ⟨store, hrename, rfl⟩ := withStore_ok h
    by_cases hne : call.oldName text = call.newName text
    · rcases RenameCall.run_same hne hrename with ⟨hrows, hsame | ⟨n, henrols⟩⟩
      · exact hi.congr hrows hsame
      · exact hi.of_enrols hrows henrols
    · by_cases hprofile : profileByName s.toAccountDB (call.oldName text) = none
      · have hnone : s.tokens.find? (call.oldName text) = none := by
          by_contra hsome
          exact hi.registered _ (Option.isSome_iff_ne_none.2 hsome) hprofile
        exact absurd hrename (RenameCall.run_none hne hnone)
      · obtain ⟨ban, hrenamed⟩ := RenameCall.run_ok hne hprofile hrename
        exact Site.Inv.of_renamed hi hne hrenamed horderly
  | deleteToken n retire retiredAt eligible => exact deleteToken_inv hi horderly h
  | ensureUserProfile username newID =>
    obtain ⟨store, hstore, rfl⟩ := withStore_ok h
    obtain ⟨accounts, haccounts, rfl⟩ := withAccounts_ok hstore
    obtain ⟨⟨userID, accounts⟩, hensure, rfl⟩ := map_ok.1 haccounts
    rcases ensureUserProfile_ok hensure with rfl | hinsert
    · exact hi
    · obtain ⟨-, -, -, htokens⟩ := insertProfile_ok hinsert
      refine hi.of_names rfl (fun n hn => ?_) (fun n hn hnone => ?_) fun n hn hfree hnone => ?_
      · rwa [← htokens]
      · have hnone₀ := ((profileByName_insertProfile hinsert n).1 hnone).2
        refine hi.registered n ?_ hnone₀
        rw [← htokens]
        exact hn
      · refine (profileByName_insertProfile hinsert n).2 ⟨?_, hnone⟩
        rintro rfl
        refine horderly hn ?_
        rw [← htokens]
        exact hfree
  | write written =>
    cases h
    refine ⟨hi.registered, fun n hn hfree => ?_⟩
    obtain ⟨hprofile, hbefore, himages⟩ := hi.vacant n hn hfree
    obtain ⟨hclaims, hpublishers⟩ := horderly n hn hfree
    refine ⟨hprofile, fun u hu r hr => ?_, fun r hr => ?_⟩
    · by_cases hold : r ∈ s.rows u.1
      · exact hbefore u hu r hold
      · exact hclaims u hu r hr hold
    · by_cases hold : r ∈ s.rows .dockerImages
      · exact himages r hold
      · exact hpublishers r hr hold

/-! ### Runs -/

def createAlice : SiteCall := .createToken ⟨"alice", [], none, 0⟩ [] "1" 1000

def aliceImage : Row .dockerImages := ⟨fun _ => "alice", ⟨("docker", "app"), ""⟩⟩

def appOwner (name userID : String) : Row .dockerMembers :=
    ⟨fun _ => name, ⟨("docker", "app"), userID, packagePermissionOwner, 1500⟩⟩

/-- The tables with the image that alice publishes, and its owners. -/
def withImage (owners : List (Row .dockerMembers)) : Site := { Site.empty with rows := fun t => match t with
  | .dockerImages => [aliceImage]
  | .dockerMembers => owners
  | _ => [] }

def publishImage : SiteCall := .write (withImage [appOwner "alice" "1"])

def published : Site := publishImage.after SuperTeam.plainText id (createAlice.after SuperTeam.plainText id .empty)

end Renop.AccountTables
