import Mathlib.Logic.Relation
import Renop.PasswordReset

/-!
# An account can always log in

`Methods` is what an account can log in with. A passkey is a method of its own only while passkeys are not the second
factor. `Safe` says that a method is left and that there is a passkey where one is asked for; each call keeps it for every
account (`execLogin_saves`), and so does every run.

What only adds methods is `Grows`. The calls that take a method away find in their own way what is left, and each is
compared with `Methods` on its own.
-/

namespace Renop.AccountSecurity

open Sql
open Renop.Cargo (Profile)

/-! ### Login methods -/

structure Methods where
  /-- A password, and the policy lets it be used. -/
  password : Bool
  github : Bool
  oauth : Bool
  passkey : Bool
  /-- Passkeys are the second factor. -/
  second : Bool

structure Methods.Safe (m : Methods) : Prop where
  login : m.password = true ∨ m.github = true ∨ m.oauth = true ∨ (m.passkey = true ∧ m.second = false)
  passkey : m.second = true → m.passkey = true

structure Methods.Le (m m' : Methods) : Prop where
  password : m.password = true → m'.password = true
  github : m.github = true → m'.github = true
  oauth : m.oauth = true → m'.oauth = true
  passkey : m.passkey = true → m'.passkey = true
  second : m'.second = true → m.second = true

theorem Methods.Le.refl (m : Methods) : m.Le m := ⟨id, id, id, id, id⟩

theorem Methods.Le.trans {m m' m'' : Methods} (h : m.Le m') (h' : m'.Le m'') : m.Le m'' :=
  ⟨h'.password ∘ h.password, h'.github ∘ h.github, h'.oauth ∘ h.oauth, h'.passkey ∘ h.passkey,
    h.second ∘ h'.second⟩

theorem Methods.Safe.mono {m m' : Methods} (h : m.Safe) (hle : m.Le m') : m'.Safe := by
  refine ⟨?_, fun hs => hle.passkey (h.passkey (hle.second hs))⟩
  rcases h.login with hp | hg | ho | ⟨hk, hs⟩
  · exact .inl (hle.password hp)
  · exact .inr (.inl (hle.github hg))
  · exact .inr (.inr (.inl (hle.oauth ho)))
  · refine .inr (.inr (.inr ⟨hle.passkey hk, ?_⟩))
    by_contra hne
    have hsecond := hle.second (by simpa using hne)
    rw [hs] at hsecond
    cases hsecond

/-- The password of an account is set and password login is on. -/
def DB.passwordReady (db : DB) (p : Profile) : Bool :=
  (db.tokens.find? p.username).any (fun t => t.encryptedSecret ≠ "") && db.passwordLoginEnabled p.userID

def DB.methods (db : DB) (p : Profile) : Methods where
  password := db.passwordReady p
  github := db.githubIdentities.rows.any fun i => i.userID = p.userID
  oauth := db.oauthIdentities.rows.any fun i => i.userID = p.userID
  passkey := db.fidoDevices.rows.any fun d => d.username = p.username
  second := passkeySecondFactor db p.userID

/-! ### What a change does to the methods -/

/-- `toLower` and `trimSpace` as Go has them: what is normalized stays as it is. -/
structure Env.Lawful (env : Env) : Prop where
  toLower_toLower : ∀ s, env.toLower (env.toLower s) = env.toLower s
  trimSpace_normal : ∀ s, env.trimSpace (env.toLower (env.trimSpace s)) = env.toLower (env.trimSpace s)

variable {env : Env} {db db' : DB} {p q : Profile} {u v : String} {now : Int}

/-- What became of the policy and the revision of one account; nothing else has changed. -/
structure Revised (db db' : DB) (u : String) (policy : Bool) : Prop where
  rest : ∃ security, db' = { db with security := security }
  other : ∀ v, v ≠ u → db'.security.find? v = db.security.find? v
  row : ∃ row, db'.security.find? u = some row ∧ row.passwordLoginEnabled = policy ∧
    ∀ old, db.security.find? u = some old → old.updatedAt < row.updatedAt

theorem lt_nextUpdatedAt (updatedAt now : Int) : updatedAt < nextUpdatedAt updatedAt now := by
  unfold nextUpdatedAt
  split <;> omega

theorem ensureAccountSecurity_ok (h : ensureAccountSecurity db u now = .ok db') :
    (∃ security, db' = { db with security := security }) ∧
      (∀ v, v ≠ u → db'.security.find? v = db.security.find? v) ∧
      (∃ row, db'.security.find? u = some row ∧ row.passwordLoginEnabled = db.passwordLoginEnabled u) ∧
      ∀ old, db.security.find? u = some old → db'.security.find? u = some old := by
  unfold ensureAccountSecurity at h
  split at h
  · rename_i row hrow
    cases h
    exact ⟨⟨db.security, rfl⟩, fun _ _ => rfl, ⟨row, hrow, by simp [DB.passwordLoginEnabled, hrow]⟩, fun _ => id⟩
  · rename_i hnone
    obtain ⟨security, hins, h⟩ := bind_ok.1 h
    cases h
    have hfind := Table.find?_insert hins
    refine ⟨⟨security, rfl⟩, fun v hv => (hfind v).trans (if_neg hv), ⟨_, (hfind u).trans (if_pos rfl), ?_⟩,
      fun old hold => ?_⟩
    · simp [DB.passwordLoginEnabled, hnone]
    · rw [hnone] at hold
      cases hold

theorem find?_updateSecurity {f : SecurityRow → SecurityRow} {hf : ∀ row, (f row).userID = row.userID} :
    (db.updateSecurity u now f hf).security.find? v = (db.security.find? v).map fun row =>
      if row.userID = u then { f row with updatedAt := nextUpdatedAt row.updatedAt now } else row := by
  unfold DB.updateSecurity
  rw [Table.find?_update]

theorem revised_updateSecurity {db₁ : DB} {f : SecurityRow → SecurityRow} {hf : ∀ row, (f row).userID = row.userID}
    {policy : Bool} (hensure : ensureAccountSecurity db u now = .ok db₁)
    (hpolicy : ∀ row, row.passwordLoginEnabled = db.passwordLoginEnabled u → (f row).passwordLoginEnabled = policy) :
    Revised db (db₁.updateSecurity u now f hf) u policy := by
  obtain ⟨⟨security, rfl⟩, hother, ⟨row, hrow, henabled⟩, hold⟩ := ensureAccountSecurity_ok hensure
  have hkey : ∀ {v row}, security.find? v = some row → row.userID = v := fun hr => (Table.find?_eq_some.1 hr).2
  refine ⟨⟨_, rfl⟩, fun v hv => ?_, ⟨{ f row with updatedAt := nextUpdatedAt row.updatedAt now }, ?_,
    hpolicy row henabled, ?_⟩⟩
  · rw [find?_updateSecurity, ← hother v hv]
    cases hr : security.find? v with
    | none => rfl
    | some other => rw [Option.map_some, if_neg (hkey hr ▸ hv)]
  · rw [find?_updateSecurity, hrow, Option.map_some, if_pos (hkey hrow)]
  · intro old hfind
    rw [hold old hfind] at hrow
    cases hrow
    exact lt_nextUpdatedAt _ now

theorem touchAccountSecurity_ok (h : touchAccountSecurity db u now = .ok db') :
    Revised db db' u (db.passwordLoginEnabled u) := by
  obtain ⟨db₁, hensure, h⟩ := bind_ok.1 h
  cases h
  exact revised_updateSecurity hensure fun _ => id

theorem setPolicy_ok {policy : Bool} (h : setPolicy db u policy now = .ok db') : Revised db db' u policy := by
  obtain ⟨db₁, hensure, h⟩ := bind_ok.1 h
  cases h
  exact revised_updateSecurity hensure fun _ _ => rfl

theorem Revised.enabled {policy : Bool} (h : Revised db db' u policy) :
    db'.passwordLoginEnabled v = if v = u then policy else db.passwordLoginEnabled v := by
  unfold DB.passwordLoginEnabled
  split
  · rename_i hv
    obtain ⟨row, hrow, hpolicy, -⟩ := h.row
    rw [hv, hrow, Option.map_some, Option.getD_some, hpolicy]
  · rename_i hv
    rw [h.other v hv]

theorem Revised.enabled_same (h : Revised db db' u (db.passwordLoginEnabled u)) :
    db'.passwordLoginEnabled v = db.passwordLoginEnabled v := by
  rw [h.enabled]
  split
  · rename_i hv
    rw [hv]
  · rfl

/-! ### Finding the account -/

theorem profileByName_some {name : String} (h : profileByName db name = some p) :
    p ∈ db.profiles.rows ∧ p.username = name :=
  ⟨List.mem_of_find?_eq_some h, by simpa using List.find?_some h⟩

theorem profile_ext (hp : p ∈ db.profiles.rows) (hq : q ∈ db.profiles.rows)
    (h : p.username = q.username ∨ p.userID = q.userID) :
    p = q := by
  rcases h with hname | hid
  · exact List.inj_on_of_nodup_map db.profiles.names hp hq hname
  · exact db.profiles.eq_of_key hp hq hid

theorem find?_profile (hp : p ∈ db.profiles.rows) :
    db.profiles.find? p.userID = some p := Table.find?_eq_some.2 ⟨hp, rfl⟩

theorem userIDForExistingAccount_ok (hl : env.Lawful) {name : String}
    (h : userIDForExistingAccount env db (env.toLower (env.trimSpace name)) = .ok u) :
    ∃ p ∈ db.profiles.rows, p.username = env.toLower (env.trimSpace name) ∧ p.userID = u := by
  obtain ⟨-, h⟩ := require_bind_ok.1 h
  obtain ⟨token, -, h⟩ := bind_ok.1 h
  obtain ⟨-, h⟩ := require_bind_ok.1 h
  obtain ⟨p, hp, h⟩ := bind_ok.1 h
  obtain ⟨-, h⟩ := require_bind_ok.1 h
  cases h
  obtain ⟨hmem, hname⟩ := profileByName_some (orError_ok.1 hp)
  rw [hl.trimSpace_normal, hl.toLower_toLower] at hname
  exact ⟨p, hmem, hname, rfl⟩

theorem mfaStateQuery_ok {name : String} {state : MFAState} (h : mfaStateQuery env db name = .ok state) :
    ∃ p ∈ db.profiles.rows, p.username = env.toLower name ∧ state.userID = p.userID ∧
      (state.passwordHash ≠ "" → state.passwordLoginEnabled = true → (db.methods p).password = true) ∧
      state.passkey = (db.methods p).second ∧ (state.githubID ≠ 0 → (db.methods p).github = true) := by
  obtain ⟨p, hp, h⟩ := bind_ok.1 h
  obtain ⟨token, htoken, h⟩ := bind_ok.1 h
  obtain ⟨-, h⟩ := require_bind_ok.1 h
  cases h
  obtain ⟨hmem, hname⟩ := profileByName_some (orError_ok.1 hp)
  refine ⟨p, hmem, hname, rfl, fun hne hon => ?_, rfl, fun hne => ?_⟩
  · have hfind : db.tokens.find? p.username = some token := hname ▸ orError_ok.1 htoken
    have hsecret : token.encryptedSecret ≠ "" := hne
    have henabled : db.passwordLoginEnabled p.userID = true := hon
    simp [DB.methods, DB.passwordReady, hfind, hsecret, henabled]
  · cases hi : db.githubIdentity? p.userID with
    | none => simp [hi] at hne
    | some i =>
      have hfind : db.githubIdentities.rows.find? (fun i => i.userID = p.userID) = some i := hi
      exact List.any_eq_true.2 ⟨i, List.mem_of_find?_eq_some hfind, by simpa using List.find?_some hfind⟩

theorem accountEmailSession_ok (hl : env.Lawful) {name session : String} {state : MFAState}
    (h : accountEmailSession env db (env.toLower name) session now = .ok state) :
    ∃ p ∈ db.profiles.rows, p.username = env.toLower name ∧ state.userID = p.userID ∧
      (state.passwordHash ≠ "" → state.passwordLoginEnabled = true → (db.methods p).password = true) ∧
      state.passkey = (db.methods p).second ∧ (state.githubID ≠ 0 → (db.methods p).github = true) := by
  obtain ⟨-, h⟩ := require_bind_ok.1 h
  obtain ⟨_, -, h⟩ := bind_ok.1 h
  obtain ⟨-, h⟩ := require_bind_ok.1 h
  have hstate := mfaStateQuery_ok h
  rwa [hl.toLower_toLower] at hstate

/-! ### Calls that take no method away -/

/-- No account loses a method, and no passkey comes or goes. -/
structure Grows (db db' : DB) : Prop where
  profiles : db'.profiles = db.profiles
  fido : db'.fidoDevices = db.fidoDevices
  le : ∀ p ∈ db.profiles.rows, (db.methods p).Le (db'.methods p)

theorem Grows.refl (db : DB) : Grows db db := ⟨rfl, rfl, fun _ _ => .refl _⟩

theorem Grows.trans {db'' : DB} (h : Grows db db') (h' : Grows db' db'') : Grows db db'' :=
  ⟨h'.profiles.trans h.profiles, h'.fido.trans h.fido,
    fun p hp => (h.le p hp).trans (h'.le p (by rw [h.profiles]; exact hp))⟩

theorem Grows.of_same (hprofiles : db'.profiles = db.profiles) (htokens : db'.tokens = db.tokens)
    (hsecurity : ∀ v, db'.passwordLoginEnabled v = db.passwordLoginEnabled v) (hfido : db'.fidoDevices = db.fidoDevices)
    (hgithub : db'.githubIdentities = db.githubIdentities) (hoauth : db'.oauthIdentities = db.oauthIdentities)
    (hmfa : db'.mfa = db.mfa) : Grows db db' := by
  refine ⟨hprofiles, hfido, fun p _ => ?_⟩
  have hsame : db'.methods p = db.methods p := by
    simp only [DB.methods, DB.passwordReady, passkeySecondFactor, htokens, hsecurity, hfido, hgithub, hoauth, hmfa]
  rw [hsame]
  exact .refl _

theorem Revised.grows (h : Revised db db' u (db.passwordLoginEnabled u)) : Grows db db' := by
  have hsame := fun v => h.enabled_same (v := v)
  obtain ⟨security, rfl⟩ := h.rest
  exact .of_same rfl rfl hsame rfl rfl rfl rfl

theorem Revised.grows_on (h : Revised db db' u true) : Grows db db' := by
  have henabled := fun v => h.enabled (v := v)
  obtain ⟨security, rfl⟩ := h.rest
  refine ⟨rfl, rfl, fun p _ => ⟨fun hp => ?_, id, id, id, id⟩⟩
  simp only [DB.methods, DB.passwordReady, Bool.and_eq_true] at hp ⊢
  refine ⟨hp.1, ?_⟩
  rw [henabled]
  split
  · rfl
  · exact hp.2

theorem find?_setSecret {name passwordHash k : String} : (db.setSecret name passwordHash).tokens.find? k =
    (db.tokens.find? k).map fun t => if t.name = name then { t with encryptedSecret := passwordHash } else t := by
  unfold DB.setSecret
  rw [Table.find?_update]

theorem grows_setSecret {name passwordHash : String} (h : passwordHash ≠ "") :
    Grows db (db.setSecret name passwordHash) := by
  refine ⟨rfl, rfl, fun p _ => ⟨fun hp => ?_, id, id, id, id⟩⟩
  have henabled : (db.setSecret name passwordHash).passwordLoginEnabled p.userID = db.passwordLoginEnabled p.userID := rfl
  simp only [DB.methods, DB.passwordReady, Bool.and_eq_true, find?_setSecret, henabled] at hp ⊢
  refine ⟨?_, hp.2⟩
  obtain ⟨t, ht, hsecret⟩ := (Option.any_eq_true _ _).1 hp.1
  rw [ht]
  by_cases hname : t.name = name
  · simpa [hname] using h
  · simpa [hname] using hsecret

theorem grows_reserveAccountEmails {proofs : List ProviderEmail} {retained : Bool} {r : Bool × DB}
    (h : reserveAccountEmails env db u proofs retained = .ok r) : Grows db r.2 := by
  unfold reserveAccountEmails at h
  split at h
  · cases h
    exact .refl _
  · obtain ⟨-, h⟩ := require_bind_ok.1 h
    obtain ⟨collected, -, h⟩ := bind_ok.1 h
    obtain ⟨emails, -, h⟩ := bind_ok.1 h
    obtain ⟨-, h⟩ := require_bind_ok.1 h
    cases h
    exact .of_same rfl rfl (fun _ => rfl) rfl rfl rfl rfl

theorem grows_bindGitHub {githubUserID : Int} {githubLogin : String} {linked : Bool}
    (h : bindGitHub db u githubUserID githubLogin now linked = .ok db') : Grows db db' := by
  unfold bindGitHub at h
  split at h
  · cases h
    refine ⟨rfl, rfl, fun p _ => ⟨id, fun hg => ?_, id, id, id⟩⟩
    obtain ⟨i, hi, hid⟩ := List.any_eq_true.1 hg
    refine List.any_eq_true.2 ⟨_, List.mem_map.2 ⟨i, hi, rfl⟩, ?_⟩
    split
    · exact hid
    · exact hid
  · obtain ⟨githubIdentities, hins, h⟩ := bind_ok.1 h
    cases h
    refine ⟨rfl, rfl, fun p _ => ⟨id, fun hg => ?_, id, id, id⟩⟩
    obtain ⟨i, hi, hid⟩ := List.any_eq_true.1 hg
    refine List.any_eq_true.2 ⟨i, ?_, hid⟩
    rw [(Table.insert_ok hins).2]
    exact List.mem_append_left _ hi

theorem grows_storeGitHubIdentity {githubUserID : Int} {githubLogin : String} {principals : List GitHubPrincipal}
    {emails : List ProviderEmail}
    (h : storeGitHubIdentity env db u githubUserID githubLogin principals now emails = .ok db') : Grows db db' := by
  obtain ⟨-, h⟩ := require_bind_ok.1 h
  obtain ⟨-, h⟩ := require_bind_ok.1 h
  obtain ⟨_, -, h⟩ := bind_ok.1 h
  obtain ⟨-, h⟩ := require_bind_ok.1 h
  obtain ⟨-, h⟩ := require_bind_ok.1 h
  obtain ⟨⟨changed, db₁⟩, hreserve, h⟩ := bind_ok.1 h
  obtain ⟨db₂, htouch, h⟩ := bind_ok.1 h
  obtain ⟨db₃, hbind, h⟩ := bind_ok.1 h
  obtain ⟨-, h⟩ := require_bind_ok.1 h
  cases h
  have htouched : Grows db₁ db₂ := by
    cases changed with
    | true => exact (touchAccountSecurity_ok htouch).grows
    | false =>
      cases htouch
      exact .refl _
  exact (grows_reserveAccountEmails hreserve).trans (htouched.trans (grows_bindGitHub hbind))

theorem grows_storeOAuthIdentity {identity : OAuthIdentity} (h : storeOAuthIdentity env db u identity now = .ok db') :
    Grows db db' := by
  obtain ⟨-, h⟩ := require_bind_ok.1 h
  obtain ⟨_, -, h⟩ := bind_ok.1 h
  obtain ⟨-, h⟩ := require_bind_ok.1 h
  obtain ⟨-, h⟩ := require_bind_ok.1 h
  obtain ⟨⟨_, db₁⟩, hreserve, h⟩ := bind_ok.1 h
  refine (grows_reserveAccountEmails hreserve).trans ?_
  dsimp only at h
  split at h
  · obtain ⟨db₂, htouch, h⟩ := bind_ok.1 h
    cases h
    refine (touchAccountSecurity_ok htouch).grows.trans ⟨rfl, rfl, fun p _ => ⟨id, id, fun ho => ?_, id, id⟩⟩
    obtain ⟨i, hi, hid⟩ := List.any_eq_true.1 ho
    refine List.any_eq_true.2 ⟨_, List.mem_map.2 ⟨i, hi, rfl⟩, ?_⟩
    split
    · exact hid
    · exact hid
  · obtain ⟨-, h⟩ := require_bind_ok.1 h
    obtain ⟨oauthIdentities, hins, h⟩ := bind_ok.1 h
    have hinserted : Grows db₁ { db₁ with oauthIdentities := oauthIdentities } := by
      refine ⟨rfl, rfl, fun p _ => ⟨id, id, fun ho => ?_, id, id⟩⟩
      obtain ⟨i, hi, hid⟩ := List.any_eq_true.1 ho
      refine List.any_eq_true.2 ⟨i, ?_, hid⟩
      rw [(Table.insert_ok hins).2]
      exact List.mem_append_left _ hi
    exact hinserted.trans (touchAccountSecurity_ok h).grows

theorem grows_resetAccountPassword {username passwordHash : String} (hne : passwordHash ≠ "")
    (h : resetAccountPassword db u username passwordHash now = .ok db') : Grows db db' := by
  obtain ⟨-, h⟩ := require_bind_ok.1 h
  obtain ⟨db₁, hpolicy, h⟩ := bind_ok.1 h
  cases h
  have hsessions : Grows db₁ { db₁ with sessions := db₁.sessions.delete fun s => s.username = username } :=
    .of_same rfl rfl (fun _ => rfl) rfl rfl rfl rfl
  exact (grows_setSecret hne).trans ((setPolicy_ok hpolicy).grows_on.trans hsessions)

theorem grows_deleteMFA (userID : String) : Grows db { db with mfa := db.mfa.delete fun m => m.userID = userID } := by
  refine ⟨rfl, rfl, fun p _ => ⟨id, id, id, id, fun hs => ?_⟩⟩
  simp only [DB.methods, passkeySecondFactor] at hs ⊢
  cases hm : (db.mfa.delete fun m => m.userID = userID).find? p.userID with
  | none => simp [hm] at hs
  | some m =>
    obtain ⟨hmem, hid⟩ := Table.find?_eq_some.1 hm
    have hfind : db.mfa.find? p.userID = some m := Table.find?_eq_some.2 ⟨(List.mem_filter.1 hmem).1, hid⟩
    rwa [hm, ← hfind] at hs

theorem validPasswordHash_ne {passwordHash : String} (h : validPasswordHash passwordHash = true) : passwordHash ≠ "" := by
  simp only [validPasswordHash, Bool.and_eq_true, decide_eq_true_eq] at h
  exact h.1

theorem grows_resetPasswordWithRecoveryCodes {identifier : String} {selectorHashes : List String} {passwordHash : String}
    {r : String × DB} (h : resetPasswordWithRecoveryCodes env db identifier selectorHashes passwordHash now = .ok r) :
    Grows db r.2 := by
  obtain ⟨hhash, h⟩ := require_bind_ok.1 h
  obtain ⟨-, h⟩ := require_bind_ok.1 h
  obtain ⟨p, -, h⟩ := bind_ok.1 h
  obtain ⟨_, -, h⟩ := bind_ok.1 h
  obtain ⟨-, h⟩ := require_bind_ok.1 h
  obtain ⟨db₁, hreset, h⟩ := bind_ok.1 h
  cases h
  refine Grows.trans ?_ ((grows_resetAccountPassword (validPasswordHash_ne hhash) hreset).trans (grows_deleteMFA p.userID))
  exact .of_same rfl rfl (fun _ => rfl) rfl rfl rfl rfl

theorem grows_setAccountPassword {username passwordHash : String}
    (h : setAccountPassword env db username passwordHash now = .ok db') : Grows db db' := by
  obtain ⟨hhash, h⟩ := require_bind_ok.1 h
  obtain ⟨userID, -, h⟩ := bind_ok.1 h
  obtain ⟨_, -, h⟩ := bind_ok.1 h
  obtain ⟨-, h⟩ := require_bind_ok.1 h
  exact (grows_setSecret (validPasswordHash_ne hhash)).trans (setPolicy_ok h).grows_on

/-! ### Calls that take a method away -/

/-- Accounts that are safe stay so. -/
structure Saves (db db' : DB) : Prop where
  profiles : db'.profiles = db.profiles
  safe : ∀ p ∈ db.profiles.rows, (db.methods p).Safe → (db'.methods p).Safe

theorem Saves.refl (db : DB) : Saves db db := ⟨rfl, fun _ _ => id⟩

theorem Saves.trans {db'' : DB} (h : Saves db db') (h' : Saves db' db'') : Saves db db'' :=
  ⟨h'.profiles.trans h.profiles, fun p hp hs => h'.safe p (by rw [h.profiles]; exact hp) (h.safe p hp hs)⟩

theorem Grows.saves (h : Grows db db') : Saves db db' := ⟨h.profiles, fun p hp hs => hs.mono (h.le p hp)⟩

theorem Saves.of_one (hprofiles : db'.profiles = db.profiles) (hq : q ∈ db.profiles.rows)
    (hothers : ∀ p ∈ db.profiles.rows, p.username ≠ q.username → p.userID ≠ q.userID →
      db'.methods p = db.methods p) (hone : (db.methods q).Safe → (db'.methods q).Safe) : Saves db db' := by
  refine ⟨hprofiles, fun p hp hs => ?_⟩
  by_cases hpq : p = q
  · subst hpq
    exact hone hs
  · have hname : p.username ≠ q.username := fun h => hpq (profile_ext hp hq (.inl h))
    have hid : p.userID ≠ q.userID := fun h => hpq (profile_ext hp hq (.inr h))
    rw [hothers p hp hname hid]
    exact hs

theorem hasOAuthLogin_iff {excluded : String} :
    hasOAuthLogin db u excluded = true ↔ ∃ i ∈ db.oauthIdentities.rows, i.userID = u ∧ i.providerID ≠ excluded := by
  simp [hasOAuthLogin, List.countP_pos_iff]

theorem oauth_of_hasOAuthLogin {excluded : String} (h : hasOAuthLogin db p.userID excluded = true) :
    (db.methods p).oauth = true := by
  obtain ⟨i, hi, hid, -⟩ := hasOAuthLogin_iff.1 h
  exact List.any_eq_true.2 ⟨i, hi, by simpa using hid⟩

theorem github_of_count (h : 0 < githubCount db p.userID) : (db.methods p).github = true := by
  obtain ⟨i, hi, hid⟩ := List.countP_pos_iff.1 h
  exact List.any_eq_true.2 ⟨i, hi, hid⟩

theorem passkey_of_count (h : 0 < db.fidoCount p.username) : (db.methods p).passkey = true := by
  obtain ⟨d, hd, hname⟩ := List.countP_pos_iff.1 h
  exact List.any_eq_true.2 ⟨d, hd, hname⟩

theorem passwordUsable_ok (hp : p ∈ db.profiles.rows) {b : Bool} (h : passwordUsable db p.userID = .ok b) :
    b = (db.methods p).password := by
  obtain ⟨secret, hsecret, h⟩ := bind_ok.1 h
  cases h
  have hfound := orError_ok.1 hsecret
  rw [DB.encryptedSecret?, find?_profile hp, Option.bind_some] at hfound
  obtain ⟨token, htoken, rfl⟩ := Option.map_eq_some_iff.1 hfound
  simp [DB.methods, DB.passwordReady, htoken, Bool.and_comm]

theorem saves_setPasswordLoginEnabled (hl : env.Lawful) {username : String} {enabled : Bool}
    (h : setPasswordLoginEnabled env db username enabled now = .ok db') : Saves db db' := by
  obtain ⟨userID, huser, h⟩ := bind_ok.1 h
  obtain ⟨_, -, h⟩ := bind_ok.1 h
  obtain ⟨token, -, h⟩ := bind_ok.1 h
  obtain ⟨-, h⟩ := require_bind_ok.1 h
  obtain ⟨hguard, h⟩ := require_bind_ok.1 h
  have hrevised := setPolicy_ok h
  cases enabled with
  | true => exact hrevised.grows_on.saves
  | false =>
    obtain ⟨q, hq, hname, rfl⟩ := userIDForExistingAccount_ok hl huser
    have henabled := fun v => hrevised.enabled (v := v)
    obtain ⟨security, rfl⟩ := hrevised.rest
    refine .of_one rfl hq (fun p _ _ hid => ?_) fun hs => ⟨?_, hs.passkey⟩
    · simp only [DB.methods, DB.passwordReady, henabled, if_neg hid]
      rfl
    · have hexternal := hguard.resolve_left (by simp)
      rw [← hname] at hexternal
      simp only [hasExternalLogin, Bool.or_eq_true, Bool.and_eq_true, decide_eq_true_eq, Bool.not_eq_true'] at hexternal
      rcases hexternal with ho | ⟨hk, hsecond⟩ | hg
      · exact .inr (.inr (.inl (oauth_of_hasOAuthLogin ho)))
      · exact .inr (.inr (.inr ⟨passkey_of_count hk, hsecond⟩))
      · exact .inr (.inl (github_of_count hg))

theorem hasLoginWithoutFido_ok (hp : p ∈ db.profiles.rows) {deviceID : String}
    (h : hasLoginWithoutFido db p.userID p.username deviceID = .ok true) :
    ((db.methods p).second = true → 0 < db.fidoCountExcept p.username deviceID) ∧
      ((db.methods p).second = false → (db.methods p).password = true ∨ (db.methods p).github = true ∨
        (db.methods p).oauth = true ∨ 0 < db.fidoCountExcept p.username deviceID) := by
  unfold hasLoginWithoutFido at h
  have hsecond : (db.methods p).second = passkeySecondFactor db p.userID := rfl
  rw [hsecond]
  split at h
  · rename_i hs
    have hcount : decide (0 < db.fidoCountExcept p.username deviceID) = true := Except.ok.inj h
    exact ⟨fun _ => by simpa using hcount, fun hne => by rw [hs] at hne; cases hne⟩
  · rename_i hs
    refine ⟨fun hyes => absurd hyes hs, fun _ => ?_⟩
    split at h
    · rename_i ho
      exact .inr (.inr (.inl (oauth_of_hasOAuthLogin ho)))
    · obtain ⟨password, hpassword, h⟩ := bind_ok.1 h
      have hany : (password || decide (0 < githubCount db p.userID) ||
        decide (0 < db.fidoCountExcept p.username deviceID)) = true := Except.ok.inj h
      simp only [Bool.or_eq_true, decide_eq_true_eq] at hany
      rw [passwordUsable_ok hp hpassword] at hany
      rcases hany with (hpw | hg) | hk
      · exact .inl hpw
      · exact .inr (.inl (github_of_count hg))
      · exact .inr (.inr (.inr hk))

theorem any_filter_of {α : Type} {l : List α} {f keep : α → Bool} (h : ∀ a, f a = true → keep a = true) :
    (l.filter keep).any f = l.any f := by
  rw [Bool.eq_iff_iff, List.any_eq_true, List.any_eq_true]
  constructor
  · rintro ⟨a, ha, hf⟩
    exact ⟨a, (List.mem_filter.1 ha).1, hf⟩
  · rintro ⟨a, ha, hf⟩
    exact ⟨a, List.mem_filter.2 ⟨ha, h a hf⟩, hf⟩

theorem saves_deleteFido {name deviceID : String} (hq : q ∈ db.profiles.rows) (hname : q.username = name)
    (halternate : hasLoginWithoutFido db q.userID name deviceID = .ok true) : Saves db (db.deleteFido name deviceID) := by
  subst hname
  obtain ⟨hsecond, hfirst⟩ := hasLoginWithoutFido_ok hq halternate
  have hkeep : 0 < db.fidoCountExcept q.username deviceID → ((db.deleteFido q.username deviceID).methods q).passkey =
      true := by
    intro hk
    obtain ⟨d, hd, hcond⟩ := List.countP_pos_iff.1 hk
    simp only [Bool.and_eq_true, decide_eq_true_eq] at hcond
    refine List.any_eq_true.2 ⟨d, List.mem_filter.2 ⟨hd, ?_⟩, by simpa using hcond.1⟩
    simp [hcond.2]
  refine .of_one rfl hq (fun p _ hne _ => ?_) fun hsafe => ⟨?_, fun hs => hkeep (hsecond hs)⟩
  · have hpasskey : (db.fidoDevices.rows.filter fun d => !(d.username = q.username && d.id = deviceID)).any
        (fun d => d.username = p.username) = db.fidoDevices.rows.any fun d => d.username = p.username := by
      refine any_filter_of fun d hd => ?_
      have hd' : d.username = p.username := by simpa using hd
      simp [hd', hne]
    simp only [DB.methods, DB.passwordReady, passkeySecondFactor, DB.passwordLoginEnabled]
    congr 1
  · cases hs : (db.methods q).second with
    | true =>
      rcases hsafe.login with hp | hg | ho | ⟨-, hfirst⟩
      · exact .inl hp
      · exact .inr (.inl hg)
      · exact .inr (.inr (.inl ho))
      · rw [hs] at hfirst
        cases hfirst
    | false =>
      rcases hfirst hs with hp | hg | ho | hk
      · exact .inl hp
      · exact .inr (.inl hg)
      · exact .inr (.inr (.inl ho))
      · exact .inr (.inr (.inr ⟨hkeep hk, hs⟩))

theorem saves_deleteFidoDevice {username deviceID : String} (h : deleteFidoDevice env db username deviceID = .ok db') :
    Saves db db' := by
  unfold deleteFidoDevice at h
  dsimp only at h
  split at h
  · cases h
    exact .refl _
  split at h
  · rename_i hnone
    cases h
    -- no account has the name
    refine ⟨rfl, fun p hp hs => ?_⟩
    have hne : p.username ≠ env.toLower (Cargo.sanitizeInputString username 255) := by
      simpa using List.find?_eq_none.1 hnone p hp
    have hpasskey : (db.fidoDevices.rows.filter fun d =>
      !(d.username = env.toLower (Cargo.sanitizeInputString username 255) &&
        d.id = Cargo.sanitizeInputString deviceID 255)).any (fun d => d.username = p.username) =
          db.fidoDevices.rows.any fun d => d.username = p.username := by
      refine any_filter_of fun d hd => ?_
      have hd' : d.username = p.username := by simpa using hd
      simp [hd', hne]
    have hsame : (db.deleteFido (env.toLower (Cargo.sanitizeInputString username 255))
        (Cargo.sanitizeInputString deviceID 255)).methods p = db.methods p := by
      simp only [DB.methods, DB.passwordReady, passkeySecondFactor, DB.passwordLoginEnabled]
      congr 1
    rw [hsame]
    exact hs
  · rename_i q hq
    obtain ⟨_, -, h⟩ := bind_ok.1 h
    split at h
    · cases h
      exact .refl _
    · obtain ⟨hasAlternate, halternate, h⟩ := bind_ok.1 h
      obtain ⟨htrue, h⟩ := require_bind_ok.1 h
      cases h
      obtain ⟨hmem, hname⟩ := profileByName_some hq
      exact saves_deleteFido hmem hname (htrue ▸ halternate)

theorem saves_deleteGitHubIdentity {username : String} (h : deleteGitHubIdentity env db username = .ok db') :
    Saves db db' := by
  obtain ⟨-, h⟩ := require_bind_ok.1 h
  obtain ⟨q, hq, h⟩ := bind_ok.1 h
  obtain ⟨-, h⟩ := require_bind_ok.1 h
  obtain ⟨_, -, h⟩ := bind_ok.1 h
  obtain ⟨hasAlternate, halternate, h⟩ := bind_ok.1 h
  obtain ⟨rfl, h⟩ := require_bind_ok.1 h
  cases h
  obtain ⟨hmem, hname⟩ := profileByName_some (orError_ok.1 hq)
  refine .of_one rfl hmem (fun p _ _ hid => ?_) fun hsafe => ⟨?_, hsafe.passkey⟩
  · have hgithub : (db.githubIdentities.rows.filter fun i => !decide (i.userID = q.userID)).any
        (fun i => i.userID = p.userID) = db.githubIdentities.rows.any fun i => i.userID = p.userID := by
      refine any_filter_of fun i hi => ?_
      have hi' : i.userID = p.userID := by simpa using hi
      simp [hi', hid]
    simp only [DB.methods, DB.passwordReady, passkeySecondFactor, DB.passwordLoginEnabled]
    congr 1
  · unfold hasLoginWithoutGitHub at halternate
    split at halternate
    · rename_i ho
      exact .inr (.inr (.inl (oauth_of_hasOAuthLogin ho)))
    · obtain ⟨password, hpassword, halternate⟩ := bind_ok.1 halternate
      have hany : (password || (decide (0 < db.fidoCount (env.toLower (Cargo.sanitized env.toText username
        Cargo.maxTokenNameLen))) && !passkeySecondFactor db q.userID)) = true := Except.ok.inj halternate
      simp only [Bool.or_eq_true, Bool.and_eq_true, decide_eq_true_eq, Bool.not_eq_true'] at hany
      rw [passwordUsable_ok hmem hpassword, ← hname] at hany
      rcases hany with hp | ⟨hk, hs⟩
      · exact .inl hp
      · exact .inr (.inr (.inr ⟨passkey_of_count hk, hs⟩))

/-- Passkeys are kept under names in lower case. -/
def Lowered (env : Env) (db : DB) : Prop := ∀ d ∈ db.fidoDevices.rows, env.toLower d.username = d.username

theorem saves_deleteOAuthIdentity (hl : env.Lawful) (hlower : Lowered env db) {username session provider : String}
    {clock : Int} (h : deleteOAuthIdentity env db username session provider now clock = .ok db') : Saves db db' := by
  obtain ⟨account, haccount, h⟩ := bind_ok.1 h
  obtain ⟨-, h⟩ := require_bind_ok.1 h
  obtain ⟨hguard, h⟩ := require_bind_ok.1 h
  obtain ⟨q, hq, hname, hid, hpassword, hpasskey, hgithub⟩ := accountEmailSession_ok hl haccount
  refine Saves.trans ?_ (touchAccountSecurity_ok h).grows.saves
  rw [hid] at hguard ⊢
  refine .of_one rfl hq (fun p _ _ hne => ?_) fun hsafe => ⟨?_, hsafe.passkey⟩
  · have hoauth : (db.oauthIdentities.rows.filter fun i => !(i.userID = q.userID && i.providerID = provider)).any
        (fun i => i.userID = p.userID) = db.oauthIdentities.rows.any fun i => i.userID = p.userID := by
      refine any_filter_of fun i hi => ?_
      have hi' : i.userID = p.userID := by simpa using hi
      simp [hi', hne]
    simp only [DB.methods, DB.passwordReady, passkeySecondFactor, DB.passwordLoginEnabled]
    congr 1
  · rcases hguard with ho | hg | ⟨hne, hon⟩ | ⟨hsecond, hk⟩
    · obtain ⟨i, hi, hiid, hprovider⟩ := hasOAuthLogin_iff.1 ho
      refine .inr (.inr (.inl (List.any_eq_true.2 ⟨i, List.mem_filter.2 ⟨hi, ?_⟩, by simpa using hiid⟩)))
      simp [hprovider]
    · exact .inr (.inl (hgithub hg))
    · exact .inl (hpassword hne hon)
    · -- a passkey under the name as it was given is one under the account's name
      obtain ⟨d, hd, hdname⟩ := List.countP_pos_iff.1 hk
      have hdname' : d.username = username := by simpa using hdname
      have hsame : d.username = q.username := by rw [hname, ← hdname', hlower d hd]
      exact .inr (.inr (.inr ⟨List.any_eq_true.2 ⟨d, hd, by simpa using hsame⟩, by rw [← hsecond, hpasskey]; rfl⟩))

theorem saves_updateMFA (hl : env.Lawful) {username snapshot secret keepSession revision : String} {passkey : Bool}
    {lastStep : Int} (h : updateMFA env db username snapshot secret passkey lastStep keepSession revision = .ok db') :
    Saves db db' := by
  obtain ⟨-, h⟩ := require_bind_ok.1 h
  obtain ⟨_, -, h⟩ := bind_ok.1 h
  obtain ⟨current, hcurrent, h⟩ := bind_ok.1 h
  obtain ⟨-, h⟩ := require_bind_ok.1 h
  obtain ⟨-, h⟩ := require_bind_ok.1 h
  obtain ⟨primary, hprimary, h⟩ := bind_ok.1 h
  obtain ⟨hguard, h⟩ := require_bind_ok.1 h
  obtain ⟨mfa, hins, h⟩ := bind_ok.1 h
  cases h
  obtain ⟨q, hq, hname, hid, -⟩ := mfaStateQuery_ok hcurrent
  rw [hl.toLower_toLower] at hname
  have hfind := Table.find?_insert hins
  have hother : ∀ p ∈ db.profiles.rows, p.userID ≠ q.userID → mfa.find? p.userID = db.mfa.find? p.userID := by
    intro p _ hne
    rw [hfind, if_neg (by rw [hid]; exact hne)]
    refine Table.find?_delete_of fun m hm => ?_
    have hm' : m.userID = p.userID := hm
    simp [hm', hid, hne]
  have hsecond : (mfa.find? q.userID).map (·.passkeyEnabled) = some passkey := by
    rw [hfind, if_pos hid.symm]
    rfl
  refine .of_one rfl hq (fun p hp _ hne => ?_) fun hsafe => ?_
  · simp only [DB.methods, DB.passwordReady, passkeySecondFactor, DB.passwordLoginEnabled, hother p hp hne]
  · cases passkey with
    | false =>
      refine hsafe.mono ⟨id, id, id, id, fun hs => ?_⟩
      simp [DB.methods, passkeySecondFactor, hsecond] at hs
    | true =>
      obtain ⟨hk, rfl⟩ := hguard rfl
      rw [← hname] at hk
      refine ⟨?_, fun _ => passkey_of_count hk⟩
      have hready : hasPrimaryWithoutFido db current.userID (env.toLower username) = .ok true := hprimary
      rw [hid] at hready
      unfold hasPrimaryWithoutFido at hready
      split at hready
      · rename_i ho
        exact .inr (.inr (.inl (oauth_of_hasOAuthLogin ho)))
      · obtain ⟨-, hready⟩ := require_bind_ok.1 hready
        obtain ⟨password, hpassword, hready⟩ := bind_ok.1 hready
        have hany : (password || decide (0 < githubCount db q.userID)) = true := Except.ok.inj hready
        simp only [Bool.or_eq_true, decide_eq_true_eq] at hany
        rw [passwordUsable_ok hq hpassword] at hany
        rcases hany with hp | hg
        · exact .inl hp
        · exact .inr (.inl (github_of_count hg))

/-! ### Calls that the other two do not cover -/

theorem grows_resetPasswordWithEmailCode {email codeHash passwordHash : String} {r : Option String × DB}
    (h : resetPasswordWithEmailCode env db email codeHash passwordHash now = .ok r) : Grows db r.2 := by
  obtain ⟨email, -, h⟩ := bind_ok.1 h
  obtain ⟨⟨-, hhash, -⟩, h⟩ := require_bind_ok.1 h
  obtain ⟨reset, -, h⟩ := bind_ok.1 h
  obtain ⟨-, h⟩ := require_bind_ok.1 h
  split at h
  · cases h
    exact .of_same rfl rfl (fun _ => rfl) rfl rfl rfl rfl
  · obtain ⟨-, h⟩ := require_bind_ok.1 h
    obtain ⟨db₁, hreset, h⟩ := bind_ok.1 h
    cases h
    exact (grows_resetAccountPassword (validPasswordHash_ne hhash) hreset).trans
      (.of_same rfl rfl (fun _ => rfl) rfl rfl rfl rfl)

theorem saveFidoDevice_ok {device : FidoDevice} (h : saveFidoDevice env db device = .ok db') :
    db' = db ∨ ∃ fidoDevices deviceID name, db' = { db with fidoDevices := fidoDevices } ∧
      fidoDevices.rows = db.fidoDevices.rows ++ [⟨deviceID, env.toLower name, device.credentialID⟩] := by
  unfold saveFidoDevice at h
  dsimp only at h
  split at h
  · cases h
    exact .inl rfl
  · obtain ⟨_, -, h⟩ := bind_ok.1 h
    obtain ⟨fidoDevices, hins, h⟩ := bind_ok.1 h
    cases h
    exact .inr ⟨fidoDevices, _, _, rfl, (Table.insert_ok hins).2⟩

theorem saves_saveFidoDevice {device : FidoDevice} (h : saveFidoDevice env db device = .ok db') : Saves db db' := by
  rcases saveFidoDevice_ok h with rfl | ⟨fidoDevices, deviceID, name, rfl, hrows⟩
  · exact .refl _
  · refine ⟨rfl, fun p _ hs => hs.mono ⟨fun h => h, fun h => h, fun h => h, fun hk => ?_, fun h => h⟩⟩
    simp only [DB.methods, hrows, List.any_append, Bool.or_eq_true] at hk ⊢
    exact .inl hk

theorem Lowered.of_mem (hlower : Lowered env db) (h : ∀ d ∈ db'.fidoDevices.rows, d ∈ db.fidoDevices.rows) :
    Lowered env db' := fun d hd => hlower d (h d hd)

theorem Lowered.saveFidoDevice (hl : env.Lawful) (hlower : Lowered env db) {device : FidoDevice}
    (h : saveFidoDevice env db device = .ok db') : Lowered env db' := by
  rcases saveFidoDevice_ok h with rfl | ⟨fidoDevices, deviceID, name, rfl, hrows⟩
  · exact hlower
  · intro d hd
    have hd' : d ∈ fidoDevices.rows := hd
    rw [hrows, List.mem_append] at hd'
    rcases hd' with hd' | hd'
    · exact hlower d hd'
    · rw [List.mem_singleton.1 hd']
      exact hl.toLower_toLower name

theorem Lowered.deleteFidoDevice (hlower : Lowered env db) {username deviceID : String}
    (h : deleteFidoDevice env db username deviceID = .ok db') : Lowered env db' := by
  unfold AccountSecurity.deleteFidoDevice at h
  dsimp only at h
  split at h
  · cases h
    exact hlower
  split at h
  · cases h
    exact hlower.of_mem fun d hd => (List.mem_filter.1 hd).1
  · obtain ⟨_, -, h⟩ := bind_ok.1 h
    split at h
    · cases h
      exact hlower
    · obtain ⟨_, -, h⟩ := bind_ok.1 h
      obtain ⟨-, h⟩ := require_bind_ok.1 h
      cases h
      exact hlower.of_mem fun d hd => (List.mem_filter.1 hd).1

theorem fido_setPasswordLoginEnabled {username : String} {enabled : Bool}
    (h : setPasswordLoginEnabled env db username enabled now = .ok db') : db'.fidoDevices = db.fidoDevices := by
  obtain ⟨_, -, h⟩ := bind_ok.1 h
  obtain ⟨_, -, h⟩ := bind_ok.1 h
  obtain ⟨_, -, h⟩ := bind_ok.1 h
  obtain ⟨-, h⟩ := require_bind_ok.1 h
  obtain ⟨-, h⟩ := require_bind_ok.1 h
  obtain ⟨security, rfl⟩ := (setPolicy_ok h).rest
  rfl

theorem fido_deleteGitHubIdentity {username : String} (h : deleteGitHubIdentity env db username = .ok db') :
    db'.fidoDevices = db.fidoDevices := by
  obtain ⟨-, h⟩ := require_bind_ok.1 h
  obtain ⟨_, -, h⟩ := bind_ok.1 h
  obtain ⟨-, h⟩ := require_bind_ok.1 h
  obtain ⟨_, -, h⟩ := bind_ok.1 h
  obtain ⟨_, -, h⟩ := bind_ok.1 h
  obtain ⟨-, h⟩ := require_bind_ok.1 h
  cases h
  rfl

theorem fido_deleteOAuthIdentity {username session provider : String} {clock : Int}
    (h : deleteOAuthIdentity env db username session provider now clock = .ok db') : db'.fidoDevices = db.fidoDevices := by
  obtain ⟨_, -, h⟩ := bind_ok.1 h
  obtain ⟨-, h⟩ := require_bind_ok.1 h
  obtain ⟨-, h⟩ := require_bind_ok.1 h
  exact (touchAccountSecurity_ok h).grows.fido

theorem fido_updateMFA {username snapshot secret keepSession revision : String} {passkey : Bool} {lastStep : Int}
    (h : updateMFA env db username snapshot secret passkey lastStep keepSession revision = .ok db') :
    db'.fidoDevices = db.fidoDevices := by
  obtain ⟨-, h⟩ := require_bind_ok.1 h
  obtain ⟨_, -, h⟩ := bind_ok.1 h
  obtain ⟨_, -, h⟩ := bind_ok.1 h
  obtain ⟨-, h⟩ := require_bind_ok.1 h
  obtain ⟨-, h⟩ := require_bind_ok.1 h
  obtain ⟨_, -, h⟩ := bind_ok.1 h
  obtain ⟨-, h⟩ := require_bind_ok.1 h
  obtain ⟨_, -, h⟩ := bind_ok.1 h
  cases h
  rfl

theorem grows_linkGitHubIdentity {username session snapshot githubLogin : String} {githubUserID authorizedAt : Int}
    {principals : List GitHubPrincipal} {emails : List ProviderEmail}
    (h : linkGitHubIdentity env db username session snapshot githubUserID githubLogin principals authorizedAt now emails =
      .ok db') : Grows db db' := by
  obtain ⟨_, -, h⟩ := bind_ok.1 h
  obtain ⟨-, h⟩ := require_bind_ok.1 h
  exact grows_storeGitHubIdentity h

theorem grows_linkOAuthIdentity {username session snapshot : String} {identity : OAuthIdentity} {clock : Int}
    (h : linkOAuthIdentity env db username session snapshot identity now clock = .ok db') : Grows db db' := by
  obtain ⟨_, -, h⟩ := bind_ok.1 h
  obtain ⟨-, h⟩ := require_bind_ok.1 h
  exact grows_storeOAuthIdentity h

/-! ### Runs -/

/-- The calls about login methods. -/
inductive LoginCall
  | setPasswordLoginEnabled (username : String) (enabled : Bool) (updatedAt : Int)
  | setAccountPassword (username passwordHash : String) (updatedAt : Int)
  | resetPasswordWithEmailCode (email codeHash passwordHash : String) (updatedAt : Int)
  | resetPasswordWithRecoveryCodes (identifier : String) (selectorHashes : List String) (passwordHash : String)
      (updatedAt : Int)
  | saveFidoDevice (device : FidoDevice)
  | deleteFidoDevice (username deviceID : String)
  | linkGitHubIdentity (username session snapshot : String) (githubUserID : Int) (githubLogin : String)
    (principals : List GitHubPrincipal) (authorizedAt now : Int) (emails : List ProviderEmail)
  | deleteGitHubIdentity (username : String)
  | linkOAuthIdentity (username session snapshot : String) (identity : OAuthIdentity) (now clock : Int)
  | deleteOAuthIdentity (username session provider : String) (now clock : Int)
  | updateMFA (username snapshot secret : String) (passkey : Bool) (lastStep : Int) (keepSession revision : String)

/-- The transaction of a call. -/
def execLogin (env : Env) (db : DB) : LoginCall → Except SecurityError DB
  | .setPasswordLoginEnabled username enabled updatedAt => setPasswordLoginEnabled env db username enabled updatedAt
  | .setAccountPassword username passwordHash updatedAt => setAccountPassword env db username passwordHash updatedAt
  | .resetPasswordWithEmailCode email codeHash passwordHash updatedAt =>
    (resetPasswordWithEmailCode env db email codeHash passwordHash updatedAt).map (·.2)
  | .resetPasswordWithRecoveryCodes identifier selectorHashes passwordHash updatedAt =>
    (resetPasswordWithRecoveryCodes env db identifier selectorHashes passwordHash updatedAt).map (·.2)
  | .saveFidoDevice device => saveFidoDevice env db device
  | .deleteFidoDevice username deviceID => deleteFidoDevice env db username deviceID
  | .linkGitHubIdentity username session snapshot githubUserID githubLogin principals authorizedAt now emails =>
    linkGitHubIdentity env db username session snapshot githubUserID githubLogin principals authorizedAt now emails
  | .deleteGitHubIdentity username => deleteGitHubIdentity env db username
  | .linkOAuthIdentity username session snapshot identity now clock =>
    linkOAuthIdentity env db username session snapshot identity now clock
  | .deleteOAuthIdentity username session provider now clock => deleteOAuthIdentity env db username session provider now clock
  | .updateMFA username snapshot secret passkey lastStep keepSession revision =>
    updateMFA env db username snapshot secret passkey lastStep keepSession revision

theorem execLogin_saves (hl : env.Lawful) (hlower : Lowered env db) {c : LoginCall} (h : execLogin env db c = .ok db') :
    Saves db db' := by
  cases c with
  | setPasswordLoginEnabled => exact saves_setPasswordLoginEnabled hl h
  | setAccountPassword => exact (grows_setAccountPassword h).saves
  | resetPasswordWithEmailCode =>
    obtain ⟨r, hr, rfl⟩ := map_ok.1 h
    exact (grows_resetPasswordWithEmailCode hr).saves
  | resetPasswordWithRecoveryCodes =>
    obtain ⟨r, hr, rfl⟩ := map_ok.1 h
    exact (grows_resetPasswordWithRecoveryCodes hr).saves
  | saveFidoDevice =>
    simp only [execLogin] at h
    exact saves_saveFidoDevice h
  | deleteFidoDevice =>
    simp only [execLogin] at h
    exact saves_deleteFidoDevice h
  | linkGitHubIdentity => exact (grows_linkGitHubIdentity h).saves
  | deleteGitHubIdentity => exact saves_deleteGitHubIdentity h
  | linkOAuthIdentity => exact (grows_linkOAuthIdentity h).saves
  | deleteOAuthIdentity => exact saves_deleteOAuthIdentity hl hlower h
  | updateMFA => exact saves_updateMFA hl h

theorem execLogin_lowered (hl : env.Lawful) (hlower : Lowered env db) {c : LoginCall} (h : execLogin env db c = .ok db') :
    Lowered env db' := by
  have hsame : db'.fidoDevices = db.fidoDevices → Lowered env db' := fun heq => hlower.of_mem fun d hd => heq ▸ hd
  cases c with
  | setPasswordLoginEnabled => exact hsame (fido_setPasswordLoginEnabled h)
  | setAccountPassword => exact hsame (grows_setAccountPassword h).fido
  | resetPasswordWithEmailCode =>
    obtain ⟨r, hr, rfl⟩ := map_ok.1 h
    exact hsame (grows_resetPasswordWithEmailCode hr).fido
  | resetPasswordWithRecoveryCodes =>
    obtain ⟨r, hr, rfl⟩ := map_ok.1 h
    exact hsame (grows_resetPasswordWithRecoveryCodes hr).fido
  | saveFidoDevice =>
    simp only [execLogin] at h
    exact hlower.saveFidoDevice hl h
  | deleteFidoDevice =>
    simp only [execLogin] at h
    exact hlower.deleteFidoDevice h
  | linkGitHubIdentity => exact hsame (grows_linkGitHubIdentity h).fido
  | deleteGitHubIdentity => exact hsame (fido_deleteGitHubIdentity h)
  | linkOAuthIdentity => exact hsame (grows_linkOAuthIdentity h).fido
  | deleteOAuthIdentity => exact hsame (fido_deleteOAuthIdentity h)
  | updateMFA => exact hsame (fido_updateMFA h)

/-- The tables that a login reads are the same: sessions come and go, codes are sent, addresses change. -/
structure LoginSame (db db' : DB) : Prop where
  profiles : db'.profiles = db.profiles
  tokens : db'.tokens = db.tokens
  security : ∀ v, db'.passwordLoginEnabled v = db.passwordLoginEnabled v
  fidoDevices : db'.fidoDevices = db.fidoDevices
  githubIdentities : db'.githubIdentities = db.githubIdentities
  oauthIdentities : db'.oauthIdentities = db.oauthIdentities
  mfa : db'.mfa = db.mfa

inductive LoginStep (env : Env) (db : DB) : DB → Prop
  | call (c : LoginCall) {db' : DB} (h : execLogin env db c = .ok db') : LoginStep env db db'
  /-- The call is refused, and its transaction is rolled back. -/
  | refused (c : LoginCall) {e : SecurityError} (h : execLogin env db c = .error e) : LoginStep env db db
  | other {db' : DB} (h : LoginSame db db') : LoginStep env db db'

theorem LoginStep.saves (hl : env.Lawful) (hlower : Lowered env db) (h : LoginStep env db db') :
    Saves db db' ∧ Lowered env db' := by
  cases h with
  | call _ hok => exact ⟨execLogin_saves hl hlower hok, execLogin_lowered hl hlower hok⟩
  | refused _ _ => exact ⟨.refl _, hlower⟩
  | other h =>
    have hgrows : Grows db db' :=
      .of_same h.profiles h.tokens h.security h.fidoDevices h.githubIdentities h.oauthIdentities h.mfa
    exact ⟨hgrows.saves, hlower.of_mem fun d hd => hgrows.fido ▸ hd⟩

theorem LoginRun.saves (hl : env.Lawful) (hlower : Lowered env db)
    (h : Relation.ReflTransGen (LoginStep env) db db') : Saves db db' ∧ Lowered env db' := by
  induction h with
  | refl => exact ⟨.refl _, hlower⟩
  | tail _ hstep ih =>
    obtain ⟨hsaves, hlower'⟩ := ih
    obtain ⟨hlast, hlower''⟩ := hstep.saves hl hlower'
    exact ⟨hsaves.trans hlast, hlower''⟩

/-- Whatever is asked for, an account that could log in still can: with its password, a linked identity, or a passkey that is
not its second factor, and it has a passkey where one is its second factor. -/
theorem always_can_log_in (hl : env.Lawful) (hlower : Lowered env db)
    (h : Relation.ReflTransGen (LoginStep env) db db') (hp : p ∈ db.profiles.rows) (hsafe : (db.methods p).Safe) :
    p ∈ db'.profiles.rows ∧
      ((∃ token, db'.tokens.find? p.username = some token ∧ token.encryptedSecret ≠ "" ∧
          db'.passwordLoginEnabled p.userID = true) ∨
        (∃ i ∈ db'.githubIdentities.rows, i.userID = p.userID) ∨
        (∃ i ∈ db'.oauthIdentities.rows, i.userID = p.userID) ∨
        ((∃ d ∈ db'.fidoDevices.rows, d.username = p.username) ∧ passkeySecondFactor db' p.userID = false)) ∧
      (passkeySecondFactor db' p.userID = true → ∃ d ∈ db'.fidoDevices.rows, d.username = p.username) := by
  obtain ⟨hsaves, -⟩ := LoginRun.saves hl hlower h
  have hany : ∀ {α : Type} {l : List α} {f : α → String} {k : String}, l.any (fun a => f a = k) = true → ∃ a ∈ l,
      f a = k := by
    intro α l f k ha
    obtain ⟨a, hmem, hk⟩ := List.any_eq_true.1 ha
    exact ⟨a, hmem, by simpa using hk⟩
  obtain ⟨hlogin, hpasskey⟩ := hsaves.safe p hp hsafe
  refine ⟨by rw [hsaves.profiles]; exact hp, ?_, fun hs => hany (hpasskey hs)⟩
  rcases hlogin with hpw | hg | ho | ⟨hk, hs⟩
  · simp only [DB.methods, DB.passwordReady, Bool.and_eq_true] at hpw
    obtain ⟨token, htoken, hne⟩ := (Option.any_eq_true _ _).1 hpw.1
    exact .inl ⟨token, htoken, by simpa using hne, hpw.2⟩
  · exact .inr (.inl (hany hg))
  · exact .inr (.inr (.inl (hany ho)))
  · exact .inr (.inr (.inr ⟨hany hk, hs⟩))

def plainEnv : Env := ⟨⟨id, id, fun _ => true, fun _ => ""⟩, some, id⟩

theorem plainEnv_lawful : plainEnv.Lawful := ⟨fun _ => rfl, fun _ => rfl⟩

def alice : Profile := ⟨"1", "alice"⟩

/-- Alice has a password. -/
def aliceDB : DB where
  tokens := ⟨[⟨"alice", "$argon2id$", none, 0, none, 0⟩], by decide⟩
  profiles := ⟨⟨[alice], by decide⟩, by decide⟩
  security := .empty
  fidoDevices := .empty
  githubIdentities := .empty
  oauthIdentities := .empty
  mfa := .empty
  sessions := .empty
  recoveryCodes := .empty
  emails := .empty
  resets := .empty
  emailChanges := .empty

def addKey : LoginCall := .saveFidoDevice ⟨"key", "alice", "credential"⟩

def noPassword : LoginCall := .setPasswordLoginEnabled "alice" false 5

def withKey : DB := (execLogin plainEnv aliceDB addKey).toOption.getD aliceDB

def keyOnly : DB := (execLogin plainEnv withKey noPassword).toOption.getD withKey

theorem always_can_log_in_alice : alice ∈ keyOnly.profiles.rows ∧
    ((∃ token, keyOnly.tokens.find? "alice" = some token ∧ token.encryptedSecret ≠ "" ∧
        keyOnly.passwordLoginEnabled "1" = true) ∨
      (∃ i ∈ keyOnly.githubIdentities.rows, i.userID = "1") ∨
      (∃ i ∈ keyOnly.oauthIdentities.rows, i.userID = "1") ∨
      ((∃ d ∈ keyOnly.fidoDevices.rows, d.username = "alice") ∧ passkeySecondFactor keyOnly "1" = false)) ∧
    (passkeySecondFactor keyOnly "1" = true → ∃ d ∈ keyOnly.fidoDevices.rows, d.username = "alice") := by
  have hadded : execLogin plainEnv aliceDB addKey = .ok withKey := ok_getD (by decide)
  have hoff : execLogin plainEnv withKey noPassword = .ok keyOnly := ok_getD (by decide)
  refine always_can_log_in plainEnv_lawful (by intro d hd; cases hd)
    ((Relation.ReflTransGen.single (.call addKey hadded)).tail (.call noPassword hoff)) List.mem_cons_self ⟨?_, nofun⟩
  exact .inl (by decide)

end Renop.AccountSecurity
