import Mathlib.Data.List.Find
import Renop.AccountRename
import Renop.SuperTeamOwners

/-!
# A rename keeps what an account has

Rows are compared with user ids in place of the names (`identify`): a name without an account is a stray one, and a
rename that keeps everything turns no stray name into an account's. `Preserved` says what a rename shall keep,
`Clean` what has to be so before.
-/

namespace Renop.AccountTables

open Sql
open Renop.Accounts
open Renop.SuperTeam (Text)
open Renop.Cargo (Key Profile)

variable {clickHouse : Bool} {text : Text} {s s' : Store} {oldName newName : String} {ban : Option Ban}

/-- The tables with what is an account's own: sessions, passkeys, keys, releases, invitations, messages and reviews. -/
def ownedTables : List TableName :=
  [.sessions, .fidoDevices, .userGPGKeys, .gpgReleases, .mavenDomainInvitations, .cargoInvitations, .dockerInvitations,
   .npmInvitations, .userMessages, .reviewTasks]

/-- A rename keeps what the accounts have; the account of `oldName` is known by its user id. -/
structure Preserved (text : Text) (s s' : Store) (oldName newName : String) : Prop where
  profiles : s'.profiles.rows = s.profiles.rows.map (relabelProfile oldName newName)
  accounts : ∀ name, name ≠ oldName → name ≠ newName → s'.tokens.find? name = s.tokens.find? name
  ban : (s'.tokens.find? newName).map (·.ban) = (s.tokens.find? oldName).map (·.ban)
  levels : ∀ kind key userID, s'.effectivePermission kind key userID = s.effectivePermission kind key userID
  roles : s'.superTeamRole = s.superTeamRole
  dockerLevels : ∀ key, ∀ p ∈ s.profiles.rows,
    s'.dockerMemberLevel text key (relabelProfile oldName newName p) = s.dockerMemberLevel text key p
  owned : ∀ t ∈ ownedTables, ((s'.rows t).map s'.identify).Perm ((s.rows t).map s.identify)
  reviews : (s'.rows .reviewTasks).map (s'.publisherMatches text) = (s.rows .reviewTasks).map (s.publisherMatches text)
  vacated : s'.tokens.find? oldName = none ∧ profileByName s'.toAccountDB oldName = none ∧
    ∀ t, ∀ r ∈ s'.rows t, ∀ c ∈ columns t, r.names c ≠ oldName

/-- Only the name of the publisher could give the user of the profile all rights on the image. -/
def Store.Unlisted (s : Store) (key : Key) (p : Profile) : Prop :=
  ∃ permission, s.effectivePermission .docker key p.userID = some permission ∧ permission.2 = false ∧
    permission.1 ≠ dockerPermissionFull

/-- Nothing in the database is taken for the account's by its new name, and nothing but the statements of the rename
needs its old one. -/
structure Clean (text : Text) (s : Store) (oldName newName : String) : Prop where
  /-- Nobody's rows wait under the new name. -/
  strays : ∀ t ∈ ownedTables, ∀ r ∈ s.rows t, ∀ c ∈ columns t, r.names c ≠ newName
  /-- No image that another name has published is the account's by one of its names only. -/
  publishers : ∀ key image p, p ∈ s.profiles.rows → s.image key = some image → s.Unlisted key p →
    p.username = oldName → image.names .publisher ≠ oldName →
    text.equalFold (image.names .publisher) oldName = text.equalFold (image.names .publisher) newName
  /-- No other user has the name of the publisher but for case, before or after. -/
  namesakes : ∀ key image p, p ∈ s.profiles.rows → s.image key = some image → s.Unlisted key p →
    p.username ≠ oldName →
    image.names .publisher = oldName → text.equalFold oldName p.username = text.equalFold newName p.username
  /-- No payload under review has the old name for its publisher. -/
  payloads : ∀ r ∈ s.rows .reviewTaskPayloads, r.names .publisher ≠ oldName
  /-- And none that the account has asked for is its own by case only. -/
  requests : ∀ task ∈ s.rows .reviewTasks, s.requestedBy task = oldName →
    ∀ p, (s.rows .reviewTaskPayloads).find? (fun p => p.data = task.data.id) = some p →
    text.equalFold (p.names .publisher) oldName = text.equalFold (p.names .publisher) newName
  /-- The reason of a ban is as `NormalizeAccountBanReason` leaves it. -/
  reason : ∀ token, s.tokens.find? oldName = some token → ∀ ban, token.ban = some ban →
    normalizeAccountBanReason text ban.reason = some ban.reason

/-- `PRIMARY KEY (username, fingerprint)` of `user_gpg_keys` -/
def Store.KeysDistinct (s : Store) : Prop :=
  (s.rows .userGPGKeys).Pairwise fun a b => ¬ (a.names .username = b.names .username ∧
    a.data.fingerprint = b.data.fingerprint)

/-! ### Names -/

theorem relabel_self : relabel oldName newName oldName = newName := if_pos rfl

theorem relabel_of_ne {name : String} (h : name ≠ oldName) : relabel oldName newName name = name := if_neg h

theorem relabel_ne_old (hne : oldName ≠ newName) (name : String) : relabel oldName newName name ≠ oldName := by
  unfold relabel
  split_ifs with h
  · exact hne.symm
  · exact h

theorem relabel_inj {a b : String} (ha : a ≠ newName) (hb : b ≠ newName) :
    relabel oldName newName a = relabel oldName newName b ↔ a = b := by
  unfold relabel
  split_ifs with hao hbo hbo
  · simp [hao, hbo]
  · exact ⟨fun h => absurd h.symm hb, fun h => absurd (h ▸ hao) hbo⟩
  · exact ⟨fun h => absurd h ha, fun h => absurd (h ▸ hbo) hao⟩
  · exact Iff.rfl

/-! ### The keys of ClickHouse -/

theorem foldl_insertGPGKey {copies : List (Row .userGPGKeys)} : ∀ {keys : List (Row .userGPGKeys)},
    (keys ++ copies).Pairwise (fun a b => ¬ (a.names .username = b.names .username ∧
      a.data.fingerprint = b.data.fingerprint)) → copies.foldl insertGPGKey keys = keys ++ copies := by
  induction copies with
  | nil =>
    intro keys _
    simp
  | cons copy copies ih =>
    intro keys hdistinct
    have hinsert : insertGPGKey keys copy = keys ++ [copy] := by
      unfold insertGPGKey
      congr 1
      refine List.filter_eq_self.2 fun k hk => ?_
      have hne := (List.pairwise_append.1 hdistinct).2.2 k hk copy List.mem_cons_self
      simpa only [decide_eq_true_eq] using hne
    rw [List.foldl_cons, hinsert, ih (by simpa using hdistinct)]
    simp

/-- Copies and deletions come to the renamed rows, in another order. -/
theorem renamedGPGKeys_perm (hne : oldName ≠ newName) {keys : List (Row .userGPGKeys)}
    (hdistinct : keys.Pairwise fun a b => ¬ (a.names .username = b.names .username ∧
      a.data.fingerprint = b.data.fingerprint)) (hfree : ∀ r ∈ keys, r.names .username ≠ newName) :
    (renamedGPGKeys oldName newName keys).Perm (keys.map (Row.renamed oldName newName [(.userGPGKeys, .username)])) := by
  have hmine : ∀ r : Row .userGPGKeys, r.names .username = oldName →
      { r with names := Function.update r.names .username newName } = r.renamed oldName newName
          [(.userGPGKeys, .username)] := by
    intro r hr
    unfold Row.renamed
    congr 1
    funext c
    by_cases hc : c = .username
    · subst hc
      simp [hr, relabel_self]
    · simp [hc]
  have hothers : ∀ r : Row .userGPGKeys, r.names .username ≠ oldName →
      r.renamed oldName newName [(.userGPGKeys, .username)] = r := by
    intro r hr
    unfold Row.renamed
    congr 1
    funext c
    by_cases hc : c = .username
    · subst hc
      simp [relabel_of_ne hr]
    · simp [hc]
  have hcopies : (keys.filter fun r => r.names .username = oldName).map
      (fun r => { r with names := Function.update r.names .username newName }) =
      (keys.filter fun r => r.names .username = oldName).map (Row.renamed oldName newName [(.userGPGKeys, .username)]) :=
    List.map_congr_left fun r hr => hmine r (by simpa using (List.mem_filter.1 hr).2)
  have hname : ∀ r : Row .userGPGKeys, r.names .username = oldName →
      (r.renamed oldName newName [(.userGPGKeys, .username)]).names .username = newName := by
    intro r hr
    simp [Row.renamed, hr, relabel_self]
  have hnew : ∀ c ∈ (keys.filter fun r => r.names .username = oldName).map
    (Row.renamed oldName newName [(.userGPGKeys, .username)]), c.names .username = newName := by
    intro c hc
    obtain ⟨r, hr, rfl⟩ := List.mem_map.1 hc
    exact hname r (by simpa using (List.mem_filter.1 hr).2)
  have hinserted : (keys ++ (keys.filter fun r => r.names .username = oldName).map
      (Row.renamed oldName newName [(.userGPGKeys, .username)])).Pairwise
        fun a b => ¬ (a.names .username = b.names .username ∧ a.data.fingerprint = b.data.fingerprint) := by
    refine List.pairwise_append.2 ⟨hdistinct, ?_, fun k hk c hc h => hfree k hk (h.1.trans (hnew c hc))⟩
    refine List.pairwise_map.2 ((hdistinct.filter _).imp_of_mem fun {a b} ha hb hab h => hab ⟨?_, h.2⟩)
    have ha' : a.names .username = oldName := by simpa using (List.mem_filter.1 ha).2
    have hb' : b.names .username = oldName := by simpa using (List.mem_filter.1 hb).2
    rw [ha', hb']
  have hkept : ((keys.filter fun r => r.names .username = oldName).map
    (Row.renamed oldName newName [(.userGPGKeys, .username)])).filter (fun r => r.names .username ≠ oldName) =
      (keys.filter fun r => r.names .username = oldName).map (Row.renamed oldName newName [(.userGPGKeys, .username)]) :=
    List.filter_eq_self.2 fun c hc => by simpa [hnew c hc] using hne.symm
  have hrest : keys.filter (fun r => r.names .username ≠ oldName) =
      (keys.filter fun r => r.names .username ≠ oldName).map (Row.renamed oldName newName [(.userGPGKeys, .username)]) := by
    conv_lhs => rw [← List.map_id (keys.filter _)]
    exact List.map_congr_left fun r hr => (hothers r (by simpa using (List.mem_filter.1 hr).2)).symm
  unfold renamedGPGKeys
  rw [hcopies, foldl_insertGPGKey hinserted, List.filter_append, hkept, hrest, ← List.map_append]
  refine List.Perm.map _ (List.perm_append_comm.trans ?_)
  simpa using List.filter_append_perm (fun r : Row .userGPGKeys => decide (r.names .username = oldName)) keys

namespace Renamed

variable (h : Renamed clickHouse text s s' oldName newName ban)
include h

theorem username_ne {p : Profile} (hp : p ∈ s.profiles.rows) : p.username ≠ newName := by
  intro hname
  have hfree := List.find?_eq_none.1 h.free p hp
  simp [hname] at hfree

theorem profileByName_relabel {name : String} (hname : name ≠ newName) :
    profileByName s'.toAccountDB (relabel oldName newName name) =
      (profileByName s.toAccountDB name).map (relabelProfile oldName newName) := by
  unfold profileByName
  rw [h.profiles, List.find?_map]
  congr 1
  refine List.find?_congr fun p hp => ?_
  have hinj := @relabel_inj oldName newName _ _ (h.username_ne hp) hname
  simp [relabelProfile, hinj]

theorem holder_relabel (hold : profileByName s.toAccountDB oldName ≠ none) {name : String} (hname : name ≠ newName) :
    s'.holder (relabel oldName newName name) = s.holder name := by
  unfold Store.holder
  rw [h.profileByName_relabel hname]
  cases hp : profileByName s.toAccountDB name with
  | some p => rfl
  | none =>
    have hne : name ≠ oldName := by
      rintro rfl
      exact hold hp
    show Holder.stray (relabel oldName newName name) = Holder.stray name
    rw [relabel_of_ne hne]

theorem holder_ne_stray (hne : oldName ≠ newName) (hold : profileByName s.toAccountDB oldName ≠ none) (name : String) :
    s'.holder name ≠ .stray newName := by
  intro hstray
  unfold Store.holder at hstray
  split at hstray
  · cases hstray
  · rename_i hnone
    cases hstray
    rw [← @relabel_self oldName newName, h.profileByName_relabel hne, Option.map_eq_none_iff] at hnone
    exact hold hnone

theorem holder_newName : s.holder newName = .stray newName := by
  unfold Store.holder
  rw [h.free]

/-! ### What is an account's own -/

theorem identify_renamed (hold : profileByName s.toAccountDB oldName ≠ none) {t : TableName}
    {us : List (TableName × Column)}
    (hus : ∀ c ∈ columns t, (t, c) ∈ us) {r : Row t} (hr : ∀ c ∈ columns t, r.names c ≠ newName) :
    s'.identify (r.renamed oldName newName us) = s.identify r := by
  unfold Store.identify
  refine congrArg (·, r.data) (List.map_congr_left fun c hc => ?_)
  show s'.holder (if (t, c) ∈ us then relabel oldName newName (r.names c) else r.names c) = _
  rw [if_pos (hus c hc), h.holder_relabel hold (hr c hc)]

theorem owned_perm (hne : oldName ≠ newName) (hold : profileByName s.toAccountDB oldName ≠ none) (hkeys : s.KeysDistinct)
    {t : TableName} (ht : t ≠ .reviewTaskPayloads) (hstrays : ∀ r ∈ s.rows t, ∀ c ∈ columns t, r.names c ≠ newName) :
    ((s'.rows t).map s'.identify).Perm ((s.rows t).map s.identify) := by
  by_cases hgpg : t = .userGPGKeys
  · subst hgpg
    have hall : ∀ c ∈ columns .userGPGKeys, (TableName.userGPGKeys, c) ∈
      [(TableName.userGPGKeys, Column.username)] := by decide
    have hmap : ((s.rows .userGPGKeys).map (Row.renamed oldName newName [(.userGPGKeys, .username)])).map s'.identify =
        (s.rows .userGPGKeys).map s.identify := by
      rw [List.map_map]
      exact List.map_congr_left fun r hr => h.identify_renamed hold hall (hstrays r hr)
    rw [← hmap, h.keys]
    split_ifs
    · exact (renamedGPGKeys_perm hne hkeys fun r hr => hstrays r hr .username (by decide)).map _
    · exact List.Perm.refl _
  · rw [h.rows t hgpg, List.map_map]
    refine .of_eq (List.map_congr_left fun r hr => ?_)
    exact h.identify_renamed hold (fun c hc => mem_columns_updates ht hgpg hc) (hstrays r hr)

theorem stray_lost (hne : oldName ≠ newName) (hold : profileByName s.toAccountDB oldName ≠ none) {t : TableName}
    (hperm : ((s'.rows t).map s'.identify).Perm ((s.rows t).map s.identify)) {r : Row t} (hr : r ∈ s.rows t) {c : Column}
    (hc : c ∈ columns t) : r.names c ≠ newName := by
  intro hname
  have hmem : s.identify r ∈ (s'.rows t).map s'.identify := hperm.mem_iff.2 (List.mem_map_of_mem hr)
  obtain ⟨r', -, hr'⟩ := List.mem_map.1 hmem
  have hfst : (columns t).map (fun c => s'.holder (r'.names c)) = (columns t).map fun c => s.holder (r.names c) :=
    congrArg Prod.fst hr'
  have hholder := List.map_inj_left.1 hfst c hc
  rw [hname, h.holder_newName] at hholder
  exact h.holder_ne_stray hne hold _ hholder

/-! ### Levels -/

theorem rows_data {t : TableName} (ht : t ≠ .userGPGKeys) : (s'.rows t).map (·.data) = (s.rows t).map (·.data) := by
  rw [h.rows t ht, List.map_map]
  rfl

theorem memberRows_eq (kind : Kind) : s'.memberRows kind = s.memberRows kind := by
  cases kind <;> exact h.rows_data (by decide)

theorem image_eq (key : Key) : s'.image key = (s.image key).map (Row.renamed oldName newName updates) := by
  unfold Store.image
  rw [h.rows _ (by decide), List.find?_map]
  rfl

theorem superTeamRole_eq : s'.superTeamRole = s.superTeamRole := by
  funext teamPrefix userID
  unfold Store.superTeamRole
  rw [h.superTeamMembers]

theorem effectivePermission_eq (kind : Kind) (key : Key) (userID : String) :
    s'.effectivePermission kind key userID = s.effectivePermission kind key userID := by
  have hexplicit : s'.explicitLevel kind key userID = s.explicitLevel kind key userID := by
    unfold Store.explicitLevel
    rw [h.memberRows_eq]
  have hbound : s'.boundTeam kind key = s.boundTeam kind key := by
    unfold Store.boundTeam
    rw [h.image_eq, h.binding, Option.map_map]
    rfl
  unfold Store.effectivePermission
  rw [hexplicit, hbound, h.superTeamRole_eq]

theorem dockerMemberLevel_iff (key : Key) (p : Profile) :
    s'.dockerMemberLevel text key (relabelProfile oldName newName p) = s.dockerMemberLevel text key p ↔
      ∀ image, s.image key = some image → s.Unlisted key p →
        text.equalFold (relabel oldName newName (image.names .publisher)) (relabel oldName newName p.username) =
          text.equalFold (image.names .publisher) p.username := by
  unfold Store.dockerMemberLevel
  have hperm : s'.effectivePermission .docker key (relabelProfile oldName newName p).userID = s.effectivePermission .docker
      key p.userID :=
    h.effectivePermission_eq .docker key p.userID
  rw [hperm, h.image_eq]
  cases himage : s.image key with
  | none => simp
  | some image =>
    cases hpermission : s.effectivePermission .docker key p.userID with
    | none => simp [Store.Unlisted, hpermission]
    | some permission =>
      have hpublisher : (image.renamed oldName newName updates).names .publisher = relabel oldName newName
        (image.names .publisher) := rfl
      have hunlisted : s.Unlisted key p ↔ permission.2 = false ∧ permission.1 ≠ dockerPermissionFull := by
        simp [Store.Unlisted, hpermission]
      simp only [Option.map_some, hpublisher, Option.some.injEq, forall_eq', hunlisted]
      show (if _ ∧ text.equalFold _ (relabel oldName newName p.username) = true then _ else _) = _ ↔ _
      by_cases hlisted : permission.2 = false
      · by_cases hfull : permission.1 = dockerPermissionFull
        · simp [hlisted, hfull]
        · simp only [hlisted, true_and, ne_eq, hfull, not_false_eq_true, forall_const]
          cases text.equalFold (relabel oldName newName (image.names .publisher)) (relabel oldName newName p.username) <;>
            cases text.equalFold (image.names .publisher) p.username <;> simp [hfull, Ne.symm hfull]
      · simp [hlisted]

theorem dockerLevels_iff (hfold : ∀ name, text.equalFold name name = true) :
    (∀ key, ∀ p ∈ s.profiles.rows,
      s'.dockerMemberLevel text key (relabelProfile oldName newName p) = s.dockerMemberLevel text key p) ↔
      (∀ key image p, p ∈ s.profiles.rows → s.image key = some image → s.Unlisted key p → p.username = oldName →
        image.names .publisher ≠ oldName →
        text.equalFold (image.names .publisher) oldName = text.equalFold (image.names .publisher) newName) ∧
      ∀ key image p, p ∈ s.profiles.rows → s.image key = some image → s.Unlisted key p → p.username ≠ oldName →
        image.names .publisher = oldName → text.equalFold oldName p.username = text.equalFold newName p.username := by
  constructor
  · intro hlevels
    have hsame := fun key image p hp => (h.dockerMemberLevel_iff key p).1 (hlevels key p hp) image
    refine ⟨fun key image p hp himage hunlisted hname hpublisher => ?_,
      fun key image p hp himage hunlisted hname hpublisher => ?_⟩
    · have heq := hsame key image p hp himage hunlisted
      rw [hname, relabel_self, relabel_of_ne hpublisher] at heq
      exact heq.symm
    · have heq := hsame key image p hp himage hunlisted
      rw [hpublisher, relabel_self, relabel_of_ne hname] at heq
      exact heq.symm
  · rintro ⟨hmine, hothers⟩ key p hp
    refine (h.dockerMemberLevel_iff key p).2 fun image himage hunlisted => ?_
    by_cases hname : p.username = oldName <;> by_cases hpublisher : image.names .publisher = oldName
    · rw [hname, hpublisher, hfold, hfold]
    · rw [hname, relabel_self, relabel_of_ne hpublisher]
      exact (hmine key image p hp himage hunlisted hname hpublisher).symm
    · rw [hpublisher, relabel_self, relabel_of_ne hname]
      exact (hothers key image p hp himage hunlisted hname hpublisher).symm
    · rw [relabel_of_ne hname, relabel_of_ne hpublisher]

/-! ### Reviews -/

theorem requestedBy_renamed (task : Row .reviewTasks) :
    s'.requestedBy (task.renamed oldName newName updates) = relabel oldName newName (s.requestedBy task) := by
  have hfind : s'.profiles.find? task.data.requestedByID = (s.profiles.find? task.data.requestedByID).map
      (relabelProfile oldName newName) := by
    unfold Table.find?
    rw [h.profiles, List.find?_map]
    rfl
  unfold Store.requestedBy
  rw [Row.renamed_data, hfind]
  cases s.profiles.find? task.data.requestedByID <;> rfl

theorem payloads_eq : s'.rows .reviewTaskPayloads = s.rows .reviewTaskPayloads := by
  have hid : (Row.renamed oldName newName updates : Row .reviewTaskPayloads → _) = id := funext fun r => rfl
  rw [h.rows _ (by decide), hid, List.map_id]

theorem reviews_iff :
    (s'.rows .reviewTasks).map (s'.publisherMatches text) = (s.rows .reviewTasks).map (s.publisherMatches text) ↔
      ∀ task ∈ s.rows .reviewTasks, s.requestedBy task = oldName →
        ∀ p, (s.rows .reviewTaskPayloads).find? (fun p => p.data = task.data.id) = some p →
          text.equalFold (p.names .publisher) oldName = text.equalFold (p.names .publisher) newName := by
  rw [h.rows _ (by decide), List.map_map, List.map_inj_left]
  refine forall₂_congr fun task _ => ?_
  show s'.publisherMatches text (task.renamed oldName newName updates) = _ ↔ _
  unfold Store.publisherMatches
  rw [h.requestedBy_renamed, h.payloads_eq, Row.renamed_data]
  cases hp : (s.rows .reviewTaskPayloads).find? fun p => p.data = task.data.id with
  | none => simp
  | some p =>
    simp only [Option.all_some, Option.some.injEq, forall_eq']
    by_cases hrequested : s.requestedBy task = oldName
    · rw [hrequested, relabel_self]
      simp [eq_comm]
    · simp [relabel_of_ne hrequested, hrequested]

/-! ### The old name and the ban -/

theorem rows_ne_old (hne : oldName ≠ newName) {t : TableName} (ht : t ≠ .reviewTaskPayloads) :
    ∀ r ∈ s'.rows t, ∀ c ∈ columns t, r.names c ≠ oldName := by
  have hrenamed : ∀ {us : List (TableName × Column)}, (∀ c ∈ columns t, (t, c) ∈ us) →
      ∀ r ∈ (s.rows t).map (Row.renamed oldName newName us), ∀ c ∈ columns t, r.names c ≠ oldName := by
    intro us hus r hr c hc
    obtain ⟨r, -, rfl⟩ := List.mem_map.1 hr
    show (if (t, c) ∈ us then relabel oldName newName (r.names c) else r.names c) ≠ oldName
    rw [if_pos (hus c hc)]
    exact relabel_ne_old hne _
  by_cases hgpg : t = .userGPGKeys
  · subst hgpg
    rw [h.keys]
    split_ifs
    · intro r hr c hc
      obtain rfl : c = .username := by simpa [columns] using hc
      simpa using (List.mem_filter.1 hr).2
    · exact hrenamed (by decide)
  · rw [h.rows t hgpg]
    exact hrenamed fun c hc => mem_columns_updates ht hgpg hc

theorem profileByName_oldName (hne : oldName ≠ newName) : profileByName s'.toAccountDB oldName = none := by
  unfold profileByName
  rw [h.profiles, List.find?_eq_none]
  intro p' hp'
  obtain ⟨p, -, rfl⟩ := List.mem_map.1 hp'
  have hp := relabel_ne_old hne p.username
  simp [relabelProfile, hp]

theorem vacated_iff (hne : oldName ≠ newName) :
    (s'.tokens.find? oldName = none ∧ profileByName s'.toAccountDB oldName = none ∧
      ∀ t, ∀ r ∈ s'.rows t, ∀ c ∈ columns t, r.names c ≠ oldName) ↔
      ∀ r ∈ s.rows .reviewTaskPayloads, r.names .publisher ≠ oldName := by
  constructor
  · rintro ⟨-, -, hrows⟩ r hr
    refine hrows .reviewTaskPayloads r ?_ .publisher (by decide)
    rw [h.payloads_eq]
    exact hr
  · intro hpayloads
    refine ⟨h.vacant, h.profileByName_oldName hne, fun t => ?_⟩
    · by_cases ht : t = .reviewTaskPayloads
      · subst ht
        intro r hr c hc
        obtain rfl : c = .publisher := by simpa [columns] using hc
        rw [h.payloads_eq] at hr
        exact hpayloads r hr
      · exact h.rows_ne_old hne ht

omit h in
theorem checkBan_ok {b b' : Ban} (hb : checkBan text b = .ok b') :
    normalizeAccountBanReason text b.reason = some b'.reason ∧ b' = { b with reason := b'.reason } := by
  obtain ⟨reason, hreason, hb⟩ := bind_ok.1 hb
  obtain ⟨-, hb⟩ := require_bind_ok.1 hb
  cases hb
  exact ⟨orError_ok.1 hreason, rfl⟩

theorem ban_iff : (s'.tokens.find? newName).map (·.ban) = (s.tokens.find? oldName).map (·.ban) ↔
    ∀ token, s.tokens.find? oldName = some token → ∀ b, token.ban = some b → normalizeAccountBanReason text b.reason =
      some b.reason := by
  obtain ⟨token, htoken, hchecked, hnew⟩ := h.account
  rw [hnew, htoken]
  simp only [Option.map_some, Option.some.injEq, forall_eq']
  cases hban : token.ban with
  | none =>
    rw [hban] at hchecked
    cases hchecked
    simp
  | some b =>
    rw [hban] at hchecked
    simp only [Option.some.injEq, forall_eq']
    obtain ⟨b', hb', hchecked⟩ := bind_ok.1 hchecked
    cases hchecked
    obtain ⟨hreason, hsame⟩ := checkBan_ok hb'
    rw [hreason, Option.some.injEq, Option.some.injEq]
    constructor
    · rintro rfl
      rfl
    · intro heq
      rw [hsame, heq]

end Renamed

/-! ### The rename -/

theorem Renamed.preserved_iff (h : Renamed clickHouse text s s' oldName newName ban)
    (hfold : ∀ name, text.equalFold name name = true)
    (hne : oldName ≠ newName) (hold : profileByName s.toAccountDB oldName ≠ none) (hkeys : s.KeysDistinct) :
    Preserved text s s' oldName newName ↔ Clean text s oldName newName := by
  have howned : ∀ t ∈ ownedTables, t ≠ .reviewTaskPayloads := by decide
  constructor
  · intro hkept
    obtain ⟨hpublishers, hnamesakes⟩ := (h.dockerLevels_iff hfold).1 hkept.dockerLevels
    exact
      { strays := fun t ht r hr c hc => h.stray_lost hne hold (hkept.owned t ht) hr hc
        publishers := hpublishers
        namesakes := hnamesakes
        payloads := (h.vacated_iff hne).1 hkept.vacated
        requests := h.reviews_iff.1 hkept.reviews
        reason := h.ban_iff.1 hkept.ban }
  · intro hclean
    exact
      { profiles := h.profiles
        accounts := h.others
        ban := h.ban_iff.2 hclean.reason
        levels := h.effectivePermission_eq
        roles := h.superTeamRole_eq
        dockerLevels := (h.dockerLevels_iff hfold).2 ⟨hclean.publishers, hclean.namesakes⟩
        owned := fun t ht => h.owned_perm hne hold hkeys (howned t ht) (hclean.strays t ht)
        reviews := h.reviews_iff.2 hclean.requests
        vacated := (h.vacated_iff hne).2 hclean.payloads }

/-- A call that fails changes nothing; one that succeeds keeps what the accounts have just when the database was clean. -/
theorem rename_preserves_iff (clickHouse : Bool) (refused : TableName × Column → Bool)
    (hfold : ∀ name, text.equalFold name name = true)
    (call : RenameCall) (s : Store) (hne : call.oldName text ≠ call.newName text)
    (hold : profileByName s.toAccountDB (call.oldName text) ≠ none) (hkeys : s.KeysDistinct) :
    (∀ e, call.run clickHouse refused text s = .error e → call.after clickHouse refused text s = s) ∧
    ∀ s', call.run clickHouse refused text s = .ok s' → call.after clickHouse refused text s = s' ∧
      (Preserved text s s' (call.oldName text) (call.newName text) ↔
        Clean text s (call.oldName text) (call.newName text)) := by
  refine ⟨fun e he => ?_, fun s' hs' => ⟨?_, ?_⟩⟩
  · unfold RenameCall.after
    rw [he]
  · unfold RenameCall.after
    rw [hs']
  · obtain ⟨ban, hrenamed⟩ := RenameCall.run_ok hne hold hs'
    exact hrenamed.preserved_iff hfold hne hold hkeys

/-- Alice has a session, a key, an image and an invitation that she has sent; a review waits that she asked for. -/
def aliceAndBob (payloads : List (Row .reviewTaskPayloads)) : Store where
  tokens := ⟨[⟨"alice", [], none, 0⟩, ⟨"robert", [], none, 0⟩], by decide⟩
  profiles := ⟨[⟨"1", "alice"⟩, ⟨"2", "robert"⟩], by decide⟩
  rows t :=
    match t with
    | .sessions => [⟨fun _ => "alice", ["session"]⟩]
    | .userGPGKeys => [⟨fun _ => "alice", ⟨"fingerprint", "1", 5⟩⟩]
    | .dockerImages => [⟨fun _ => "alice", ⟨("docker", "app"), ""⟩⟩]
    | .dockerInvitations => [⟨fun c => if c = .inviter then "alice" else "robert", ["invitation"]⟩]
    | .reviewTasks => [⟨fun c => if c = .requestedByName then "alice" else "",
        ⟨"task", "publication", "1", "", "pending"⟩⟩]
    | .reviewTaskPayloads => payloads
    | _ => []
  superTeamMembers := []
  binding _ _ := none
  renameWindow _ := (0, 0)

def aliceToAlicia : RenameCall := .updateUserProfile "alice" "alicia" (some "Alice") none 1000 "" 1000

theorem aliceToAlicia_names : aliceToAlicia.oldName SuperTeam.plainText = "alice" ∧
    aliceToAlicia.newName SuperTeam.plainText = "alicia" := by
  decide

theorem plainText_equalFold (name : String) : SuperTeam.plainText.equalFold name name = true := by simp [SuperTeam.plainText]

theorem aliceAndBob_image {payloads : List (Row .reviewTaskPayloads)} {key : Key} {image : Row .dockerImages}
    (h : (aliceAndBob payloads).image key = some image) : image.names .publisher = "alice" := by
  obtain rfl : image = ⟨fun _ => "alice", ⟨("docker", "app"),
    ""⟩⟩ := by simpa [aliceAndBob] using List.mem_of_find?_eq_some h
  rfl

theorem aliceAndBob_clean : Clean SuperTeam.plainText (aliceAndBob []) "alice" "alicia" where
  strays := by decide
  publishers := by
    intro key image p _ himage _ _ hpublisher
    exact absurd (aliceAndBob_image himage) hpublisher
  namesakes := by
    intro key image p hp himage _ hname _
    have hrobert : p = ⟨"1", "alice"⟩ ∨ p = ⟨"2", "robert"⟩ := by simpa [aliceAndBob] using hp
    rcases hrobert with rfl | rfl
    · exact absurd rfl hname
    · decide
  payloads := by
    intro r hr
    cases hr
  requests := by
    intro task _ _ p hp
    cases hp
  reason := by
    intro token htoken b hb
    have hname : token = ⟨"alice", [], none, 0⟩ := by
      have hfound : (aliceAndBob []).tokens.find? "alice" = some ⟨"alice", [], none, 0⟩ := by decide
      rw [hfound] at htoken
      exact (Option.some.inj htoken).symm
    rw [hname] at hb
    cases hb

theorem clean_rename_preserves : ∃ s', aliceToAlicia.run false (fun _ => false) SuperTeam.plainText (aliceAndBob []) =
    .ok s' ∧ Preserved SuperTeam.plainText (aliceAndBob []) s' "alice" "alicia" := by
  have hok : aliceToAlicia.run false (fun _ => false) SuperTeam.plainText (aliceAndBob []) = .ok _ :=
    @ok_getD _ _ _ (aliceAndBob []) (by decide)
  obtain ⟨hold, hnew⟩ := aliceToAlicia_names
  have h := (rename_preserves_iff false (fun _ => false) plainText_equalFold aliceToAlicia (aliceAndBob [])
    (by rw [hold, hnew]; decide) (by rw [hold]; decide) (List.pairwise_singleton _ _)).2 _ hok
  rw [hold, hnew] at h
  exact ⟨_, hok, h.2.2 aliceAndBob_clean⟩

/-- The payload of a crate under review still names alice, and then its review can no longer be answered. -/
theorem review_not_preserved : ∃ s', aliceToAlicia.run false (fun _ => false) SuperTeam.plainText
    (aliceAndBob [⟨fun _ => "alice", "task"⟩]) =
    .ok s' ∧ ¬ Preserved SuperTeam.plainText (aliceAndBob [⟨fun _ => "alice", "task"⟩]) s' "alice" "alicia" := by
  have hok : aliceToAlicia.run false (fun _ => false) SuperTeam.plainText (aliceAndBob [⟨fun _ => "alice", "task"⟩]) =
      .ok _ :=
    @ok_getD _ _ _ (aliceAndBob [⟨fun _ => "alice", "task"⟩]) (by decide)
  refine ⟨_, hok, fun hkept => ?_⟩
  have hreviews := hkept.reviews
  revert hreviews
  decide

end Renop.AccountTables
