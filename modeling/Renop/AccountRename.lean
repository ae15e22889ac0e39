import Renop.AccountTables

/-!
# What a rename does to the rows

A loop of statements rewrites each row by itself (`Row.renamed`), and so does the whole rename, but for the keys of
ClickHouse: those are inserted anew. `Renamed` says what a call leaves that succeeds.
-/

namespace Renop.AccountTables

open Sql
open Renop.Accounts
open Renop.SuperTeam (Text)
open Renop.Cargo (Key Profile sanitized maxTokenNameLen)

variable {text : Text} {s s' : Store} {oldName newName : String} {t : TableName}

/-- What the rename makes of a name. -/
def relabel (oldName newName name : String) : String := if name = oldName then newName else name

/-! ### The rows -/

/-- A row after the statements `us`. -/
def Row.renamed (oldName newName : String) (us : List (TableName × Column)) (r : Row t) : Row t :=
  { r with names := fun c => if (t, c) ∈ us then relabel oldName newName (r.names c) else r.names c }

@[simp] theorem Row.renamed_data (us : List (TableName × Column)) (r : Row t) :
    (r.renamed oldName newName us).data = r.data := rfl

theorem Row.renamed_nil (r : Row t) : r.renamed oldName newName [] = r := by
  simp [Row.renamed]

theorem Row.renamed_cons (hne : oldName ≠ newName) (u : TableName × Column) (us : List (TableName × Column)) (r : Row t) :
    (r.update oldName newName u).renamed oldName newName us = r.renamed oldName newName (u :: us) := by
  have hnew : relabel oldName newName newName = newName := if_neg hne.symm
  unfold Row.update
  split_ifs with hu
  · obtain ⟨rfl, hold⟩ := hu
    unfold Row.renamed
    congr 1
    funext c
    by_cases hc : c = u.2
    · subst hc
      simp [hold, relabel]
    · have hpair : (u.1, c) ≠ u := fun h => hc (congrArg Prod.snd h)
      simp [Function.update_of_ne hc, hpair]
  · unfold Row.renamed
    congr 1
    funext c
    by_cases hc : (t, c) = u
    · subst hc
      have hold : r.names c ≠ oldName := fun h => hu ⟨rfl, h⟩
      simp [relabel, hold]
    · simp [hc]

theorem foldlM_execUpdate (hne : oldName ≠ newName) {refused : TableName × Column → Bool}
    {us : List (TableName × Column)} (h : us.foldlM (execUpdate refused oldName newName) s = .ok s') :
    s' = { s with rows := fun t => (s.rows t).map (Row.renamed oldName newName us) } := by
  induction us generalizing s with
  | nil =>
    cases h
    have hid : ∀ t, (fun r : Row t => r.renamed oldName newName []) = id := fun t => funext Row.renamed_nil
    simp only [hid, List.map_id]
  | cons u us ih =>
    rw [List.foldlM_cons] at h
    obtain ⟨s₁, h₁, h⟩ := bind_ok.1 h
    obtain ⟨-, h₁⟩ := require_bind_ok.1 h₁
    cases h₁
    rw [ih h]
    unfold Store.update
    congr 1
    funext t
    rw [List.map_map]
    congr 1
    funext r
    exact r.renamed_cons hne u us

theorem mem_updates (t : TableName) (c : Column) :
    (t, c) ∈ updates ↔ c ∈ columns t ∧ t ≠ .reviewTaskPayloads ∧ t ≠ .userGPGKeys := by
  have hcolumn : ∀ u ∈ updates, u.2 ∈ columns u.1 ∧ u.1 ≠ .reviewTaskPayloads ∧ u.1 ≠ .userGPGKeys := by decide
  have hlisted : ∀ c ∈ columns t, t ≠ .reviewTaskPayloads → t ≠ .userGPGKeys →
    (t, c) ∈ updates := by cases t <;> decide
  exact ⟨hcolumn (t, c), fun h => hlisted c h.1 h.2.1 h.2.2⟩

theorem mem_columns_updates {c : Column} (ht : t ≠ .reviewTaskPayloads) (hkeys : t ≠ .userGPGKeys) (hc : c ∈ columns t) :
    (t, c) ∈ updates := (mem_updates t c).2 ⟨hc, ht, hkeys⟩

/-- The rows after a rename. -/
structure RowsRenamed (clickHouse : Bool) (s s' : Store) (oldName newName : String) : Prop where
  rows : ∀ t, t ≠ .userGPGKeys → s'.rows t = (s.rows t).map (Row.renamed oldName newName updates)
  keys : s'.rows .userGPGKeys = if clickHouse then renamedGPGKeys oldName newName (s.rows .userGPGKeys)
    else (s.rows .userGPGKeys).map (Row.renamed oldName newName [(.userGPGKeys, .username)])
  superTeamMembers : s'.superTeamMembers = s.superTeamMembers
  binding : s'.binding = s.binding

theorem renameRows_ok (hne : oldName ≠ newName) {clickHouse : Bool} {refused : TableName × Column → Bool}
    (h : renameRows clickHouse refused s oldName newName = .ok s') :
    RowsRenamed clickHouse s s' oldName newName ∧ s'.toAccountDB = s.toAccountDB := by
  -- No statement of the list has the table of the keys.
  have hkeys : ∀ r : Row .userGPGKeys, r.renamed oldName newName updates = r := fun r => rfl
  have hcongr : ∀ {t} {us vs : List (TableName × Column)}, (∀ c, (t, c) ∈ us ↔ (t, c) ∈ vs) →
      (Row.renamed oldName newName us : Row t → Row t) = Row.renamed oldName newName vs := by
    intro t us vs hmem
    funext r
    unfold Row.renamed
    simp only [hmem]
  unfold renameRows at h
  cases clickHouse with
  | true =>
    rw [if_pos rfl] at h
    obtain ⟨-, h⟩ := require_bind_ok.1 h
    rw [foldlM_execUpdate hne h]
    refine ⟨⟨fun t ht => ?_, ?_, rfl, rfl⟩, rfl⟩
    · cases t <;> first | rfl | exact absurd rfl ht
    · show List.map _ (renamedGPGKeys oldName newName (s.rows .userGPGKeys)) = _
      rw [funext hkeys, List.map_id', if_pos rfl]
  | false =>
    rw [if_neg (by decide)] at h
    rw [foldlM_execUpdate hne h]
    refine ⟨⟨fun t ht => ?_, ?_, rfl, rfl⟩, rfl⟩
    · show List.map _ (s.rows t) = _
      rw [hcongr]
      intro c
      simp [ht]
    · show List.map _ (s.rows .userGPGKeys) = List.map _ (s.rows .userGPGKeys)
      rw [hcongr]
      intro c
      rw [List.mem_append, mem_updates]
      simp

/-! ### The accounts -/

def relabelProfile (oldName newName : String) (p : Profile) : Profile :=
  { p with username := relabel oldName newName p.username }

/-- A rename that has succeeded. -/
structure Renamed (clickHouse : Bool) (text : Text) (s s' : Store) (oldName newName : String) (ban : Option Ban) : Prop
    extends RowsRenamed clickHouse s s' oldName newName where
  free : profileByName s.toAccountDB newName = none
  profiles : s'.profiles.rows = s.profiles.rows.map (relabelProfile oldName newName)
  account : ∃ token, s.tokens.find? oldName = some token ∧ token.ban.mapM (checkBan text) = .ok ban ∧
    (s'.tokens.find? newName).map (·.ban) = some ban
  vacant : s'.tokens.find? oldName = none
  others : ∀ name, name ≠ oldName → name ≠ newName → s'.tokens.find? name = s.tokens.find? name

theorem renameTokenInTx_ok (hne : oldName ≠ newName) {clickHouse : Bool} {refused : TableName × Column → Bool}
    {token : Token} {now : Int} (h : renameTokenInTx clickHouse refused text s oldName newName token now = .ok s') :
    RowsRenamed clickHouse s s' oldName newName ∧ s'.profiles = s.profiles ∧
      (∃ ban, token.ban.mapM (checkBan text) = .ok ban ∧ (s'.tokens.find? newName).map (·.ban) = some ban) ∧
      s'.tokens.find? oldName = none ∧ ∀ name, name ≠ oldName → name ≠ newName →
        s'.tokens.find? name = s.tokens.find? name := by
  obtain ⟨hfree, h⟩ := require_bind_ok.1 h
  obtain ⟨ban, hban, h⟩ := bind_ok.1 h
  obtain ⟨tokens, htokens, h⟩ := bind_ok.1 h
  obtain ⟨hrows, haccounts⟩ := renameRows_ok hne h
  obtain ⟨-, hchecked⟩ := require_bind_ok.1 hban
  have hfind : ∀ name, (tokens.delete fun t => t.name = oldName).find? name =
      ((if name = newName then some { token with name := newName, ban := ban, deletedAt := 0 }
        else s.tokens.find? name).filter fun t => t.name ≠ oldName) := by
    intro name
    rw [Table.find?_delete, Table.find?_insert htokens]
    congr 1
    funext t
    simp
  have hdb : s'.tokens = tokens.delete fun t => t.name = oldName := congrArg AccountDB.tokens haccounts
  have hprofiles : s'.profiles = s.profiles := by rw [haccounts]
  refine ⟨⟨hrows.rows, hrows.keys, hrows.superTeamMembers, hrows.binding⟩, hprofiles, ⟨ban, hchecked, ?_⟩, ?_, ?_⟩
  · rw [hdb, hfind, if_pos rfl]
    simp [hne.symm]
  · rw [hdb, hfind, if_neg hne]
    rw [Option.filter_eq_none_iff]
    intro t ht
    simp [(Table.find?_eq_some.1 ht).2]
  · intro name hold hnew
    rw [hdb, hfind, if_neg hnew]
    cases ht : s.tokens.find? name with
    | none => rfl
    | some t =>
      have hkept : t.name ≠ oldName := by rwa [(Table.find?_eq_some.1 ht).2]
      simp [hkept]

theorem renameProfile_ok {db db' : AccountDB} (hne : oldName ≠ newName) (h : renameProfile db oldName newName = .ok db') :
    profileByName db newName = none ∧ db'.tokens = db.tokens ∧ db'.profiles.rows = db.profiles.rows.map
      (relabelProfile oldName newName) := by
  obtain ⟨hfree, h⟩ := require_bind_ok.1 h
  cases h
  refine ⟨hfree.resolve_left hne, rfl, ?_⟩
  rw [Table.rows_update]
  congr 1
  funext p
  unfold relabelProfile relabel
  split <;> rfl

theorem withAccounts_ok {r : Except AccountError AccountDB} (h : s.withAccounts r = .ok s') :
    ∃ accounts, r = .ok accounts ∧ s' = { s with toAccountDB := accounts } := by
  cases r with
  | error e => cases h
  | ok accounts =>
    cases h
    exact ⟨accounts, rfl, rfl⟩

theorem Renamed.of_parts {clickHouse : Bool} {refused : TableName × Column → Bool} {s₁ : Store} {token : Token}
    {now : Int} (hne : oldName ≠ newName) (hold : ∃ current, s.tokens.find? oldName = some current ∧ current.ban = token.ban)
    (h : renameTokenInTx clickHouse refused text s oldName newName token now = .ok s₁) {window : String → Int × Nat}
    (hprofile : Store.withAccounts { s₁ with renameWindow := window } (renameProfile s₁.toAccountDB oldName newName) =
      .ok s') :
    ∃ ban, Renamed clickHouse text s s' oldName newName ban := by
  obtain ⟨hrows, hprofiles, ⟨ban, hban, hnew⟩, hvacant, hothers⟩ := renameTokenInTx_ok hne h
  obtain ⟨accounts, hrename, rfl⟩ := withAccounts_ok hprofile
  obtain ⟨hfree, htokens, hrelabeled⟩ := renameProfile_ok hne hrename
  obtain ⟨current, hcurrent, hsame⟩ := hold
  refine ⟨ban, { hrows with
    free := ?_, profiles := ?_, account := ⟨current, hcurrent, by rw [hsame]; exact hban, ?_⟩, vacant := ?_,
      others := ?_ }⟩
  · rw [← hfree]
    exact congrArg (List.find? _) (congrArg Table.rows hprofiles).symm
  · rw [← hprofiles]
    exact hrelabeled
  · show (accounts.tokens.find? newName).map _ = _
    rw [htokens]
    exact hnew
  · show accounts.tokens.find? oldName = none
    rw [htokens]
    exact hvacant
  · show ∀ name, _ → _ → accounts.tokens.find? name = _
    rw [htokens]
    exact hothers

/-! ### The calls -/

namespace RenameCall

variable {clickHouse : Bool} {refused : TableName × Column → Bool}

theorem run_ok {call : RenameCall} (hne : call.oldName text ≠ call.newName text)
    (hprofile : profileByName s.toAccountDB (call.oldName text) ≠ none) (h : call.run clickHouse refused text s = .ok s') :
    ∃ ban, Renamed clickHouse text s s' (call.oldName text) (call.newName text) ban := by
  cases call with
  | renameToken oldName newName token newID now =>
    unfold run AccountTables.renameToken at h
    obtain ⟨-, h⟩ := require_bind_ok.1 h
    have hdiff : text.toLower (sanitized text.toText oldName maxTokenNameLen) ≠
      text.toLower (sanitized text.toText newName maxTokenNameLen) := hne
    obtain ⟨-, h⟩ := require_bind_ok.1 h
    rw [if_neg hdiff] at h
    obtain ⟨⟨profile, current⟩, hcurrent, h⟩ := bind_ok.1 h
    obtain ⟨s₁, h₁, h⟩ := bind_ok.1 h
    obtain ⟨_, -, hcurrent⟩ := bind_ok.1 hcurrent
    obtain ⟨_, -, hcurrent⟩ := bind_ok.1 hcurrent
    obtain ⟨found, hfound, hcurrent⟩ := bind_ok.1 hcurrent
    obtain ⟨-, hcurrent⟩ := require_bind_ok.1 hcurrent
    cases hcurrent
    exact Renamed.of_parts hne ⟨_, orError_ok.1 hfound, rfl⟩ h₁ h
  | updateUserProfile oldUsername newUsername nickname permissions changedAt newID now =>
    unfold run AccountTables.updateUserProfile at h
    obtain ⟨-, h⟩ := require_bind_ok.1 h
    obtain ⟨p, hp⟩ := Option.ne_none_iff_exists'.1 hprofile
    have hp' : profileByName s.toAccountDB (text.toLower (sanitized text.toText oldUsername maxTokenNameLen)) = some p := hp
    simp only [hp'] at h
    obtain ⟨_, -, h⟩ := bind_ok.1 h
    obtain ⟨current, hcurrent, h⟩ := bind_ok.1 h
    have hdiff : text.toLower (sanitized text.toText oldUsername maxTokenNameLen) ≠
      text.toLower (sanitized text.toText newUsername maxTokenNameLen) := hne
    rw [if_neg hdiff] at h
    obtain ⟨window, -, h⟩ := bind_ok.1 h
    obtain ⟨s₁, h₁, h⟩ := bind_ok.1 h
    have hname : p.username = text.toLower (sanitized text.toText oldUsername
      maxTokenNameLen) := by simpa using List.find?_some hp'
    unfold writeProfile at h
    dsimp only at h
    rw [hname] at h
    have hold : ∃ token, s.tokens.find? (text.toLower (sanitized text.toText oldUsername maxTokenNameLen)) = some token ∧
        token.ban = ({ current with permissions := permissions.getD current.permissions } : Token).ban :=
      ⟨current, orError_ok.1 hcurrent, rfl⟩
    exact Renamed.of_parts hne hold h₁ h

end RenameCall

end Renop.AccountTables
