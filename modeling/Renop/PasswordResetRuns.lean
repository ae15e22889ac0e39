import Renop.AccountRevision

/-!
# What a reset code is worth

A run of calls on accounts with the times at which they are made. A code is compared with the account by the revision that
it was issued for, and `Later` says what an equal revision means. `Started` is what every state keeps: names are in lower
case, and no outstanding code is of a revision that is still to come.

A profile update can set another password under the same revision, and a second one can set the old password again. Between
the two the account is not what the code was issued for, and the code is accepted all the same.
-/

namespace Renop.AccountSecurity

open Sql
open Renop.Cargo (Profile)

variable {env : Env} {db db' db'' : DB} {p q : Profile} {u v email codeHash passwordHash : String} {now expiresAt : Int}

/-! ### The two calls about a code -/

theorem passwordResetIdentity_some (h : (passwordResetIdentity env db email).userID ≠ "") : ∃ p secret,
    db.owner email = some (passwordResetIdentity env db email).userID ∧
    db.profiles.find? (passwordResetIdentity env db email).userID = some p ∧
    (passwordResetIdentity env db email).username = p.username ∧
    (passwordResetIdentity env db email).credentialHash = env.sha256 secret ∧
    db.account? (passwordResetIdentity env db email).userID =
      some (secret, (passwordResetIdentity env db email).updatedAt) := by
  unfold passwordResetIdentity at h ⊢
  split at h
  · exact absurd rfl h
  · rename_i address haddress
    split at h
    · rename_i row p hlock hrow hp
      split at h
      · rename_i token htoken
        split at h
        · rename_i hdeleted
          have howner : db.owner email = some address.userID := by rw [DB.owner, haddress, Option.map_some]
          simp only [hp, if_pos hdeleted]
          exact ⟨p, token.encryptedSecret, howner, rfl, rfl, rfl,
            account?_some.2 ⟨p, row, token, hp, hrow, htoken, hdeleted, rfl⟩⟩
        · exact absurd rfl h
      · exact absurd rfl h
    · exact absurd rfl h

theorem find?_of_delete {α κ : Type} [DecidableEq κ] {key : α → κ} {t : Table key} {gone : α → Bool}
    {k : κ} {a : α} (h : (t.delete gone).find? k = some a) : t.find? k = some a := by
  obtain ⟨hmem, hkey⟩ := Table.find?_eq_some.1 h
  exact Table.find?_eq_some.2 ⟨(List.mem_filter.1 hmem).1, hkey⟩

theorem queueEmailPasswordReset_ok {job : MailJob} {ip : String} {queueMail : Except SecurityError Bool} {r : Bool × DB}
    (h : queueEmailPasswordReset env db job codeHash ip queueMail = .ok r) :
    r = (false, db) ∨ ∃ email resets, normalizeEmail env job.recipient = some email ∧
      r = (true, { db with resets := resets }) ∧
      resets.find? email = some ⟨email, (passwordResetIdentity env db email).userID, codeHash,
        (passwordResetIdentity env db email).credentialHash, (passwordResetIdentity env db email).updatedAt, 0, job.createdAt,
        job.expiresAt⟩ ∧
      ∀ k, k ≠ email → ∀ row, resets.find? k = some row → db.resets.find? k = some row := by
  obtain ⟨-, h⟩ := require_bind_ok.1 h
  obtain ⟨email, hemail, h⟩ := bind_ok.1 h
  obtain ⟨created, -, h⟩ := bind_ok.1 h
  split at h
  · cases h
    exact .inl rfl
  · obtain ⟨-, h⟩ := require_bind_ok.1 h
    obtain ⟨-, h⟩ := require_bind_ok.1 h
    obtain ⟨resets, hins, h⟩ := bind_ok.1 h
    cases h
    have hfind := Table.find?_insert hins
    have hnormal := (Option.filter_eq_some_iff.1 (orError_ok.1 hemail)).1
    refine .inr ⟨email, resets, hnormal, rfl, (hfind email).trans (if_pos rfl), fun k hk row hrow => ?_⟩
    rw [hfind, if_neg hk] at hrow
    exact find?_of_delete hrow

/-- A code is used: the row says that the account is as it was. -/
structure Uses (env : Env) (db db' : DB) (email codeHash : String) (now : Int) (row : PasswordReset) : Prop where
  found : db.resets.find? email = some row
  code : codeHash = row.codeHash
  live : now < row.expiresAt
  attempts : row.attempts < 5
  userID : row.userID ≠ ""
  owner : db.owner email = some row.userID
  account : ∃ secret, db.account? row.userID = some (secret, row.securityUpdatedAt)
  touches : ∃ db₁, Touches row.userID db db₁ ∧ db' = { db₁ with resets := db.resets.delete fun r =>
    r.email = email }
  sessions : ∃ p, db'.profiles.find? row.userID = some p ∧ ∀ s ∈ db'.sessions.rows, s.username ≠ p.username

theorem resetPasswordWithEmailCode_ok {r : Option String × DB}
    (h : resetPasswordWithEmailCode env db email codeHash passwordHash now = .ok r) :
    ∃ e row, normalizeEmail env email = some e ∧ db.resets.find? e = some row ∧ now < row.expiresAt ∧
      row.attempts < 5 ∧ ((r.1 = none ∧ (codeHash ≠ row.codeHash ∨ row.userID = "") ∧ ∃ resets, r.2 = { db with resets := resets } ∧
          ∀ k, resets.find? k = (db.resets.find? k).map fun x =>
            if x.email = e then { x with attempts := x.attempts + 1 } else x) ∨
        (r.1 ≠ none ∧ Uses env db r.2 e codeHash now row)) := by
  obtain ⟨e, he, h⟩ := bind_ok.1 h
  obtain ⟨-, h⟩ := require_bind_ok.1 h
  obtain ⟨row, hrow, h⟩ := bind_ok.1 h
  obtain ⟨⟨hlive, hattempts⟩, h⟩ := require_bind_ok.1 h
  have hfound := orError_ok.1 hrow
  have hnormal := (Option.filter_eq_some_iff.1 (orError_ok.1 he)).1
  refine ⟨e, row, hnormal, hfound, hlive, hattempts, ?_⟩
  split at h
  · rename_i hwrong
    cases h
    exact .inl ⟨rfl, hwrong, _, rfl, fun k => by rw [Table.find?_update]⟩
  · rename_i hright
    have hcode : codeHash = row.codeHash := by_contra fun hne => hright (.inl hne)
    have huser : row.userID ≠ "" := fun heq => hright (.inr heq)
    obtain ⟨⟨hid, hcredential, hrevision⟩, h⟩ := require_bind_ok.1 h
    obtain ⟨db₁, hreset, h⟩ := bind_ok.1 h
    cases h
    obtain ⟨p, secret, howner, hp, hname, -, haccount⟩ := passwordResetIdentity_some (by rw [hid]; exact huser)
    rw [hid, hrevision] at haccount
    rw [hid] at howner hp
    obtain ⟨hmem, hpid⟩ := Table.find?_eq_some.1 hp
    rw [hname, ← hpid] at hreset
    obtain ⟨htouches, hsessions⟩ := touches_resetAccountPassword hmem hreset
    rw [hpid] at htouches
    have hp' : db₁.profiles.find? row.userID = some p := by rw [htouches.profiles]; exact hp
    refine .inr ⟨by simp, hfound, hcode, hlive, hattempts, huser, howner, ⟨secret, haccount⟩, ⟨db₁, htouches, ?_⟩,
      p, hp', hsessions⟩
    rw [← htouches.resets]

theorem accountIdentity_mem {identifier : String} (h : accountIdentity env db identifier = .ok p) :
    p ∈ db.profiles.rows := by
  unfold accountIdentity at h
  dsimp only at h
  split at h
  · obtain ⟨email, -, h⟩ := bind_ok.1 h
    obtain ⟨address, -, h⟩ := bind_ok.1 h
    exact (Table.find?_eq_some.1 (orError_ok.1 h)).1
  · obtain ⟨-, h⟩ := require_bind_ok.1 h
    exact (profileByName_some (orError_ok.1 h)).1

theorem touches_resetPasswordWithRecoveryCodes (hnames : Named env db)
    {identifier : String} {selectorHashes : List String} {r : String × DB}
    (h : resetPasswordWithRecoveryCodes env db identifier selectorHashes passwordHash now = .ok r) :
    ∃ v, Touches v db r.2 := by
  obtain ⟨-, h⟩ := require_bind_ok.1 h
  obtain ⟨-, h⟩ := require_bind_ok.1 h
  obtain ⟨p, hp, h⟩ := bind_ok.1 h
  obtain ⟨_, -, h⟩ := bind_ok.1 h
  obtain ⟨-, h⟩ := require_bind_ok.1 h
  obtain ⟨db₁, hreset, h⟩ := bind_ok.1 h
  cases h
  have hmem := accountIdentity_mem hp
  rw [hnames p hmem] at hreset
  obtain ⟨htouches, -⟩ := (fun hm => touches_resetAccountPassword hm hreset) hmem
  exact ⟨p.userID, htouches.profiles, htouches.tokens, htouches.secrets, htouches.other, htouches.row, htouches.emails,
    htouches.resets⟩

/-! ### Calls on accounts -/

inductive AccountCall
  | queueEmailPasswordReset (scene ticketHash recipient : String) (expiresAt : Int) (codeHash ip : String)
    (queueMail : Except SecurityError Bool)
  | resetPasswordWithEmailCode (email codeHash passwordHash : String)
  | resetPasswordWithRecoveryCodes (identifier : String) (selectorHashes : List String) (passwordHash : String)
  | setAccountPassword (username passwordHash : String)
  | setPasswordLoginEnabled (username : String) (enabled : Bool)
  | updateAccountEmail (username email : String)
  | confirmAccountEmailChange (username session email codeHash : String) (clock : Int)
  | updateAccountEmailFromSession (username session email snapshot : String) (clock : Int)
      (providerEmails : List ProviderEmail)
  | deleteAccountEmailAlias (username session email : String) (clock : Int)
  | renameToken (oldName newName : String) (refused : Option SecurityError)
  | updateUserProfile (oldName newName : String) (password : Option String) (refused : Option SecurityError)
  | deleteToken (name : String) (retire : Bool) (actedAt : Int) (refused : Option SecurityError)
  | releaseRetiredAccountEmail (username : String)

/-- The transaction of a call that is made at the time `now`. -/
def execAccount (env : Env) (now : Int) (db : DB) : AccountCall → Except SecurityError DB
  | .queueEmailPasswordReset scene ticketHash recipient expiresAt codeHash ip queueMail =>
    (queueEmailPasswordReset env db ⟨scene, ticketHash, recipient, now, expiresAt⟩ codeHash ip queueMail).map (·.2)
  | .resetPasswordWithEmailCode email codeHash passwordHash =>
    (resetPasswordWithEmailCode env db email codeHash passwordHash now).map (·.2)
  | .resetPasswordWithRecoveryCodes identifier selectorHashes passwordHash =>
    (resetPasswordWithRecoveryCodes env db identifier selectorHashes passwordHash now).map (·.2)
  | .setAccountPassword username passwordHash => setAccountPassword env db username passwordHash now
  | .setPasswordLoginEnabled username enabled => setPasswordLoginEnabled env db username enabled now
  | .updateAccountEmail username email => updateAccountEmail env db username email now
  | .confirmAccountEmailChange username session email codeHash clock =>
    (confirmAccountEmailChange env db username session email codeHash now clock).map (·.2)
  | .updateAccountEmailFromSession username session email snapshot clock providerEmails =>
    updateAccountEmailFromSession env db username session email snapshot now clock providerEmails
  | .deleteAccountEmailAlias username session email clock => deleteAccountEmailAlias env db username session email now clock
  | .renameToken oldName newName refused => renameToken env db oldName newName refused
  | .updateUserProfile oldName newName password refused => updateUserProfile env db oldName newName password refused
  | .deleteToken name retire actedAt refused => deleteToken env db name retire actedAt refused
  | .releaseRetiredAccountEmail username => releaseRetiredAccountEmail env db username now

/-- Sessions, passkeys, second factors, recovery codes and linked identities come and go. -/
structure Beside (db db' : DB) : Prop where
  profiles : db'.profiles = db.profiles
  tokens : db'.tokens = db.tokens
  security : db'.security = db.security
  emails : db'.emails = db.emails
  resets : db'.resets = db.resets

inductive AccountStep (env : Env) (now : Int) (db : DB) : Option AccountCall → DB → Prop
  | call {c : AccountCall} {db' : DB} (h : execAccount env now db c = .ok db') : AccountStep env now db (some c) db'
  /-- The call is refused, and its transaction is rolled back. -/
  | refused {c : AccountCall} {e : SecurityError} (h : execAccount env now db c = .error e) : AccountStep env now db
      (some c) db
  | beside {db' : DB} (h : Beside db db') : AccountStep env now db none db'

/-- One step of a run, with the states around it. -/
structure Entry where
  before : DB
  now : Int
  call : Option AccountCall
  after : DB

/-- A run from `db` with times that do not decrease. -/
inductive AccountRun (env : Env) : DB → Int → List Entry → Prop
  | nil {db : DB} {t : Int} : AccountRun env db t []
  | cons {db db' : DB} {t now : Int} {call : Option AccountCall} {log : List Entry} (hstep : AccountStep env now db call db')
    (hle : t ≤ now) (rest : AccountRun env db' now log) : AccountRun env db t (⟨db, now, call, db'⟩ :: log)

/-! ### What every state keeps -/

structure Started (env : Env) (db : DB) : Prop where
  names : Named env db
  timely : ∀ row ∈ db.resets.rows, row.userID ≠ "" → Gone row.userID db ∨
    ∃ secret revision, db.account? row.userID = some (secret, revision) ∧ row.securityUpdatedAt ≤ revision

/-- Each code that is outstanding was so, about the same account as it was. -/
def NoneNew (db db' : DB) : Prop := ∀ k row', db'.resets.find? k = some row' → ∃ row, db.resets.find? k = some row ∧
  row'.userID = row.userID ∧ row'.securityUpdatedAt = row.securityUpdatedAt

theorem NoneNew.of_eq (h : db'.resets = db.resets) :
    NoneNew db db' := fun k row hrow => ⟨row, by rw [← h]; exact hrow, rfl, rfl⟩

theorem Started.of_later (h : Started env db) (hnames : Named env db') (hnew : NoneNew db db') {kept : String → Prop}
    (hlater : ∀ u, Later u db db' (kept u)) : Started env db' := by
  refine ⟨hnames, fun row hrow hne => ?_⟩
  obtain ⟨old, hold, hid, hrevision⟩ := hnew row.email row (Table.find?_eq_some.2 ⟨hrow, rfl⟩)
  rw [hid] at hne ⊢
  rw [hrevision]
  rcases h.timely old (Table.find?_eq_some.1 hold).1 hne with hgone | ⟨secret, revision, haccount, hle⟩
  · exact .inl ((hlater _).gone hgone)
  · rcases (hlater _).account secret revision haccount with hgone | ⟨secret', revision', haccount', hstep⟩
    · exact .inl hgone
    · refine .inr ⟨secret', revision', haccount', ?_⟩
      rcases hstep with hlt | ⟨heq, -, -⟩
      · omega
      · omega

/-- A code for the address `e` is issued. -/
def Entry.Issues (env : Env) (s : Entry) (e codeHash : String) (expiresAt : Int) : Prop :=
  ∃ scene ticketHash recipient ip queueMail,
    s.call = some (.queueEmailPasswordReset scene ticketHash recipient expiresAt codeHash ip queueMail) ∧
    normalizeEmail env recipient = some e ∧
    queueEmailPasswordReset env s.before ⟨scene, ticketHash, recipient, s.now, expiresAt⟩ codeHash ip queueMail =
      .ok (true, s.after)

/-- The code for the address `e` is accepted, and the account `u` gets the password. -/
def Entry.Accepts (env : Env) (s : Entry) (e codeHash u : String) : Prop :=
  ∃ email passwordHash name, s.call = some (.resetPasswordWithEmailCode email codeHash passwordHash) ∧
    normalizeEmail env email = some e ∧
    resetPasswordWithEmailCode env s.before email codeHash passwordHash s.now = .ok (some name, s.after) ∧
    s.before.owner e = some u

/-- A guess for the address `e` that is not the code. -/
def Entry.guesses (env : Env) (e codeHash : String) (s : Entry) : Bool :=
  match s.call with
  | some (.resetPasswordWithEmailCode email guess passwordHash) =>
    normalizeEmail env email = some e && e ≠ "" && validSelectorHash guess && validPasswordHash passwordHash && 0 < s.now &&
      guess ≠ codeHash
  | _ => false

/-- What a step is for the outstanding codes. -/
inductive Entry.ResetEffect (env : Env) (s : Entry) : Prop
  | none (h : s.after.resets = s.before.resets)
  | issue {e codeHash : String} {expiresAt : Int} (h : s.Issues env e codeHash expiresAt)
  | wrong {e codeHash email passwordHash : String}
    (hcall : s.call = some (.resetPasswordWithEmailCode email codeHash passwordHash))
    (hfind : ∀ k, s.after.resets.find? k = (s.before.resets.find? k).map fun x =>
      if x.email = e then { x with attempts := x.attempts + 1 } else x)
  | accept {e codeHash : String} {row : PasswordReset} (h : s.Accepts env e codeHash row.userID)
    (huses : Uses env s.before s.after e codeHash s.now row)

/-- The call is a profile update that gives the account `u` another password. -/
def AccountCall.Repasswords (env : Env) (db : DB) (u : String) : AccountCall → Prop
  | .updateUserProfile oldName _ password _ => ChangesPassword env db oldName password u
  | _ => False

/-- A step in which a profile update that is not refused gives the account `u` another password. -/
def Entry.Repasswords (env : Env) (u : String) (s : Entry) : Prop :=
  ∃ c, s.call = some c ∧ execAccount env s.now s.before c = .ok s.after ∧ c.Repasswords env s.before u

/-- The account and its addresses are the later ones, and names stay in lower case. -/
structure Kept (env : Env) (s : Entry) : Prop where
  later : ∀ u, Later u s.before s.after (¬ s.Repasswords env u)
  named : Named env s.after

theorem Kept.of_profiles {s : Entry} (hnames : Named env s.before) (hprofiles : s.after.profiles = s.before.profiles)
    (hlater : ∀ u, Later u s.before s.after) : Kept env s :=
  ⟨fun u => (hlater u).weaken fun _ => trivial, fun p hp => hnames p (by rw [← hprofiles]; exact hp)⟩

theorem Touches.kept {s : Entry} (h : Touches v s.before s.after) (hnames : Named env s.before) : Kept env s :=
  .of_profiles hnames h.profiles fun _ => h.later

theorem Uses.kept {s : Entry} {row : PasswordReset} (h : Uses env s.before s.after email codeHash now row)
    (hnames : Named env s.before) : Kept env s := by
  obtain ⟨db₁, htouches, hafter⟩ := h.touches
  refine .of_profiles hnames (by rw [hafter]; exact htouches.profiles) fun _ => ?_
  rw [hafter]
  exact htouches.later.trans (.of_tables rfl rfl rfl rfl)

theorem execAccount_effect (hl : env.Lawful) (hnames : Named env db) {c : AccountCall}
    (h : execAccount env now db c = .ok db') :
    Entry.ResetEffect env ⟨db, now, some c, db'⟩ ∧ Kept env ⟨db, now, some c, db'⟩ := by
  have htouched : (∃ v, Touches v db db') → Entry.ResetEffect env ⟨db, now, some c, db'⟩ ∧
      Kept env ⟨db, now, some c, db'⟩ :=
    fun ⟨v, hv⟩ => ⟨.none hv.resets, Touches.kept hv hnames⟩
  cases c with
  | queueEmailPasswordReset =>
    obtain ⟨r, hr, rfl⟩ := map_ok.1 h
    rcases queueEmailPasswordReset_ok hr with rfl | ⟨e, resets, hnormal, rfl, -, -⟩
    · exact ⟨.none rfl, .of_profiles hnames rfl fun u => .refl u db⟩
    · exact ⟨.issue ⟨_, _, _, _, _, rfl, hnormal, hr⟩, .of_profiles hnames rfl fun _ => .of_tables rfl rfl rfl rfl⟩
  | resetPasswordWithEmailCode email codeHash passwordHash =>
    obtain ⟨⟨answer, db'⟩, hr, rfl⟩ := map_ok.1 h
    rcases resetPasswordWithEmailCode_ok hr with ⟨e, row, hnormal, hrow, -, -,
      ⟨-, -, resets, rfl, hfind⟩ | ⟨hsome, huses⟩⟩
    · exact ⟨.wrong rfl hfind, .of_profiles hnames rfl fun _ => .of_tables rfl rfl rfl rfl⟩
    · obtain ⟨name, rfl⟩ := Option.ne_none_iff_exists'.1 hsome
      exact ⟨.accept ⟨email, passwordHash, name, rfl, hnormal, hr, huses.owner⟩ huses, Uses.kept huses hnames⟩
  | resetPasswordWithRecoveryCodes =>
    obtain ⟨r, hr, rfl⟩ := map_ok.1 h
    exact htouched (touches_resetPasswordWithRecoveryCodes hnames hr)
  | setAccountPassword => exact htouched (touches_setAccountPassword hl h)
  | setPasswordLoginEnabled => exact htouched (touches_setPasswordLoginEnabled h)
  | updateAccountEmail => exact htouched (touches_updateAccountEmail h)
  | confirmAccountEmailChange =>
    obtain ⟨r, hr, rfl⟩ := map_ok.1 h
    obtain ⟨hprofiles, hresets, hlater⟩ := later_confirmAccountEmailChange hr
    exact ⟨.none hresets, .of_profiles hnames hprofiles hlater⟩
  | updateAccountEmailFromSession => exact htouched (touches_updateAccountEmailFromSession h)
  | deleteAccountEmailAlias => exact htouched (touches_deleteAccountEmailAlias h)
  | renameToken =>
    obtain ⟨current, hcurrent, halive, hrenames⟩ := renameToken_ok h
    exact ⟨.none hrenames.resets, fun _ => (hrenames.later hcurrent halive).weaken fun _ _ _ _ => rfl,
      hnames.renames hl hrenames⟩
  | updateUserProfile =>
    refine ⟨.none ?_, fun u => (later_updateUserProfile h).weaken fun hkept hchanges =>
      hkept ⟨_, rfl, h, hchanges⟩, ?_⟩
    · obtain ⟨p, current, -, -, -, -, rfl | hrenames⟩ := updateUserProfile_ok h
      · rfl
      · exact hrenames.resets
    · obtain ⟨p, current, -, -, -, -, rfl | hrenames⟩ := updateUserProfile_ok h
      · exact hnames
      · exact hnames.renames hl hrenames
  | deleteToken =>
    simp only [execAccount] at h
    obtain ⟨hnamed, hresets⟩ := hnames.deleteToken h
    exact ⟨.none hresets, fun _ => (later_deleteToken h).weaken fun _ => trivial, hnamed⟩
  | releaseRetiredAccountEmail =>
    obtain ⟨hprofiles, hresets, hlater⟩ := later_releaseRetiredAccountEmail h
    exact ⟨.none hresets, .of_profiles hnames hprofiles hlater⟩

theorem AccountStep.effect (hl : env.Lawful) (hnames : Named env db) {c : Option AccountCall}
    (h : AccountStep env now db c db') :
    Entry.ResetEffect env ⟨db, now, c, db'⟩ ∧ Kept env ⟨db, now, c, db'⟩ := by
  cases h with
  | call hok => exact execAccount_effect hl hnames hok
  | refused _ => exact ⟨.none rfl, fun u => .refl u db, hnames⟩
  | beside hsame =>
    exact ⟨.none hsame.resets, .of_profiles hnames hsame.profiles fun _ =>
      .of_tables hsame.profiles hsame.tokens hsame.security hsame.emails⟩

/-! ### Codes that are outstanding -/

theorem Entry.Issues.row {s : Entry} {e : String} (h : s.Issues env e codeHash expiresAt) :
    ∃ row, s.after.resets.find? e = some row ∧ row.codeHash = codeHash ∧ row.expiresAt = expiresAt ∧
      row.attempts = 0 ∧ row.userID = (passwordResetIdentity env s.before e).userID ∧
      row.securityUpdatedAt = (passwordResetIdentity env s.before e).updatedAt ∧
      (∃ resets, s.after = { s.before with resets := resets }) ∧
      ∀ k, k ≠ e → ∀ x, s.after.resets.find? k = some x → s.before.resets.find? k = some x := by
  obtain ⟨scene, ticketHash, recipient, ip, queueMail, -, hnormal, hr⟩ := h
  rcases queueEmailPasswordReset_ok hr with heq | ⟨e', resets, hnormal', heq, hfind, hothers⟩
  · cases congrArg Prod.fst heq
  · have he : e' = e := Option.some.inj (hnormal'.symm.trans hnormal)
    subst he
    have hafter : s.after = { s.before with resets := resets } := congrArg Prod.snd heq
    rw [hafter]
    exact ⟨_, hfind, rfl, rfl, rfl, rfl, rfl, ⟨resets, rfl⟩, hothers⟩

theorem Entry.Accepts.uses {s : Entry} {e : String} (h : s.Accepts env e codeHash u) :
    ∃ row, Uses env s.before s.after e codeHash s.now row ∧ row.userID = u := by
  obtain ⟨email, passwordHash, name, -, hnormal, hr, howner⟩ := h
  rcases resetPasswordWithEmailCode_ok hr with ⟨e', row, hnormal', -, -, -, ⟨hnone, -⟩ | ⟨-, huses⟩⟩
  · cases hnone
  · have he : e' = e := Option.some.inj (hnormal'.symm.trans hnormal)
    subst he
    exact ⟨row, huses, Option.some.inj (huses.owner.symm.trans howner)⟩

theorem Started.step (hl : env.Lawful) (hs : Started env db) {c : Option AccountCall} (h : AccountStep env now db c db') :
    Started env db' := by
  obtain ⟨heffect, hkept⟩ := h.effect hl hs.names
  cases heffect with
  | none hsame => exact hs.of_later hkept.named (.of_eq hsame) hkept.later
  | issue hissue =>
    rename_i e _ _
    obtain ⟨issued, hfind, -, -, -, hid, hrevision, ⟨resets, hrest⟩, hothers⟩ := hissue.row
    have hdb : db' = { db with resets := resets } := hrest
    subst hdb
    refine ⟨hkept.named, fun row hrow hne => ?_⟩
    have hrow' : resets.find? row.email = some row := Table.find?_eq_some.2 ⟨hrow, rfl⟩
    by_cases he : row.email = e
    · rw [he] at hrow'
      cases hfind.symm.trans hrow'
      obtain ⟨p, secret, -, -, -, -, haccount⟩ := passwordResetIdentity_some (by rw [← hid]; exact hne)
      rw [← hid, ← hrevision] at haccount
      exact .inr ⟨secret, issued.securityUpdatedAt, haccount, le_refl _⟩
    · exact hs.timely row (Table.find?_eq_some.1 (hothers row.email he row hrow')).1 hne
  | wrong _ hfind =>
    refine hs.of_later hkept.named (fun k row' hrow' => ?_) hkept.later
    have hmap := hfind k
    rw [hrow'] at hmap
    obtain ⟨row, hrow, rfl⟩ := Option.map_eq_some_iff.1 hmap.symm
    refine ⟨row, hrow, ?_⟩
    split <;> exact ⟨rfl, rfl⟩
  | accept _ huses =>
    obtain ⟨db₁, -, hrest⟩ := huses.touches
    refine hs.of_later hkept.named (fun k row hrow => ⟨row, ?_, rfl, rfl⟩) hkept.later
    have hresets : db'.resets = db.resets.delete _ := congrArg DB.resets hrest
    rw [hresets] at hrow
    exact find?_of_delete hrow

/-- Two rows of the same code. -/
structure SameCode (row row' : PasswordReset) : Prop where
  userID : row'.userID = row.userID
  codeHash : row'.codeHash = row.codeHash
  securityUpdatedAt : row'.securityUpdatedAt = row.securityUpdatedAt
  expiresAt : row'.expiresAt = row.expiresAt
  attempts : row.attempts ≤ row'.attempts

theorem SameCode.refl (row : PasswordReset) : SameCode row row := ⟨rfl, rfl, rfl, rfl, le_refl _⟩

/-- Without a new code the row was there before, and its code was not accepted. -/
theorem AccountStep.row {s : Entry} (hl : env.Lawful) (hnames : Named env s.before)
    (h : AccountStep env s.now s.before s.call s.after) {e : String} (hissue : ∀ c t, ¬ s.Issues env e c t)
    {row' : PasswordReset} (hrow' : s.after.resets.find? e = some row') :
    (∃ row, s.before.resets.find? e = some row ∧ SameCode row row') ∧ ∀ c u, ¬ s.Accepts env e c u := by
  have hgone : ∀ c u, ¬ s.Accepts env e c u := by
    intro c u haccept
    obtain ⟨row, huses, -⟩ := haccept.uses
    obtain ⟨db₁, -, hrest⟩ := huses.touches
    rw [hrest] at hrow'
    obtain ⟨hmem, hkey⟩ := Table.find?_eq_some.1 hrow'
    have hkept := (List.mem_filter.1 hmem).2
    simp [hkey] at hkept
  refine ⟨?_, hgone⟩
  obtain ⟨heffect, -⟩ := h.effect hl hnames
  cases heffect with
  | none hsame =>
    have hsame' : s.after.resets = s.before.resets := hsame
    exact ⟨row', by rw [← hsame']; exact hrow', .refl row'⟩
  | issue hissued =>
    rename_i e' c t
    obtain ⟨-, -, -, -, -, -, -, -, hothers⟩ := hissued.row
    have hne : e ≠ e' := by
      rintro rfl
      exact hissue c t hissued
    exact ⟨row', hothers e hne row' hrow', .refl row'⟩
  | wrong _ hfind =>
    have hmap := hfind e
    rw [hrow'] at hmap
    obtain ⟨row, hrow, rfl⟩ := Option.map_eq_some_iff.1 hmap.symm
    refine ⟨row, hrow, ?_⟩
    split
    · exact ⟨rfl, rfl, rfl, rfl, by show row.attempts ≤ row.attempts + 1; omega⟩
    · exact .refl row
  | accept _ huses =>
    obtain ⟨db₁, -, hrest⟩ := huses.touches
    have hresets : s.after.resets = s.before.resets.delete _ := congrArg DB.resets hrest
    rw [hresets] at hrow'
    exact ⟨row', find?_of_delete hrow', .refl row'⟩

theorem AccountStep.counts {s : Entry} (h : AccountStep env s.now s.before s.call s.after) {e : String}
    {row row' : PasswordReset}
    (hguess : s.guesses env e row.codeHash = true) (hrow : s.before.resets.find? e = some row) (hlive : s.now < row.expiresAt)
    (hattempts : row.attempts < 5) (hrow' : s.after.resets.find? e = some row') : row'.attempts = row.attempts + 1 := by
  obtain ⟨before, now, call, after⟩ := s
  unfold Entry.guesses at hguess
  split at hguess
  · rename_i email guess passwordHash hcall
    simp only [Bool.and_eq_true, decide_eq_true_eq] at hguess
    obtain ⟨⟨⟨⟨⟨hnormal, hne⟩, hselector⟩, hpassword⟩, hpos⟩, hwrong⟩ := hguess
    have hcall' : call = some (.resetPasswordWithEmailCode email guess passwordHash) := hcall
    subst hcall'
    have hemail : orError ((normalizeEmail env email).filter (· ≠ "")) SecurityError.emailCodeInvalid = .ok e :=
      orError_ok.2 (Option.filter_eq_some_iff.2 ⟨hnormal, by simpa using hne⟩)
    have hexec : resetPasswordWithEmailCode env before email guess passwordHash now = .ok (none, { before with
        resets := before.resets.update (fun r => if r.email = e then { r with attempts := r.attempts + 1 } else r)
          fun r => by split <;> rfl }) := by
      unfold resetPasswordWithEmailCode
      refine bind_ok.2 ⟨e, hemail, require_bind_ok.2 ⟨⟨hselector, hpassword, hpos⟩,
        bind_ok.2 ⟨row, orError_ok.2 hrow, require_bind_ok.2 ⟨⟨hlive, hattempts⟩, ?_⟩⟩⟩⟩
      rw [if_pos (.inl hwrong)]
      rfl
    have hrun : execAccount env now before (.resetPasswordWithEmailCode email guess passwordHash) = .ok { before with
        resets := before.resets.update (fun r => if r.email = e then { r with attempts := r.attempts + 1 } else r)
          fun r => by split <;> rfl } := map_ok.2 ⟨_, hexec, rfl⟩
    cases h with
    | call hok =>
      cases hok.symm.trans hrun
      have hkey : row.email = e := (Table.find?_eq_some.1 hrow).2
      dsimp only at hrow hrow'
      rw [Table.find?_update, hrow, Option.map_some, if_pos hkey] at hrow'
      cases hrow'
      rfl
    | refused herr => cases herr.symm.trans hrun
  · cases hguess

/-! ### Runs -/

section Runs
variable {t : Int} {pre mid post rest : List Entry} {s issue accept : Entry} {e : String}

theorem AccountRun.at (hl : env.Lawful) (hs : Started env db) (h : AccountRun env db t (pre ++ s :: rest)) :
    Started env s.before ∧ AccountStep env s.now s.before s.call s.after ∧ AccountRun env s.after s.now rest ∧
      t ≤ s.now ∧ ∀ u, Later u db s.before (∀ x ∈ pre, ¬ x.Repasswords env u) := by
  induction pre generalizing db t with
  | nil =>
    cases h with
    | cons hstep hle hrest => exact ⟨hs, hstep, hrest, hle, fun u => .refl u db⟩
  | cons s₁ pre ih =>
    cases h with
    | cons hstep hle hrest =>
      obtain ⟨-, hkept⟩ := hstep.effect hl hs.names
      obtain ⟨hstarted, hone, hafter, hle', hlater⟩ := ih (hs.step hl hstep) hrest
      refine ⟨hstarted, hone, hafter, le_trans hle hle', fun u => ?_⟩
      exact ((hkept.later u).weaken fun h => h _ List.mem_cons_self).trans
        ((hlater u).weaken fun h x hx => h x (List.mem_cons_of_mem _ hx))

theorem AccountRun.next (h : AccountRun env s.after t (mid ++ [accept])) : ∃ x ∈ mid ++ [accept], x.before = s.after := by
  cases mid with
  | nil =>
    cases h with
    | cons => exact ⟨_, List.mem_cons_self, rfl⟩
  | cons x mid =>
    cases h with
    | cons => exact ⟨_, List.mem_cons_self, rfl⟩

theorem Entry.Repasswords.secret {s : Entry} (h : s.Repasswords env u) {secret : String} {revision : Int}
    (ha : s.before.account? u = some (secret, revision)) : ∃ secret', s.after.account? u = some (secret', revision) ∧
      secret' ≠ secret := by
  obtain ⟨c, -, hok, hchanges⟩ := h
  cases c with
  | updateUserProfile oldName newName password refused => exact account?_updateUserProfile hok hchanges ha
  | _ => exact absurd hchanges id

theorem AccountRun.initial (h : AccountRun env db t (pre ++ post)) : AccountRun env db t pre := by
  induction pre generalizing db t with
  | nil => exact .nil
  | cons s pre ih =>
    cases h with
    | cons hstep hle hrest => exact .cons hstep hle (ih hrest)

end Runs

/-! ### Alice asks for a code -/

/-- SHA-256 of the two password hashes. -/
def resetEnv : Env := { plainEnv with sha256 := fun secret =>
  if secret = "$argon2id$" then "d1a6822bf67c9d8413d28fb69b8da9cb81d6b20c8725db58aba8a932a0699fb7"
  else "30e921f9a42899acf450c5fcd9bcfd560faef968ed76011603a525874a3ae3d5" }

def codeHashOf (right : Bool) : String :=
  if right then "c5b389beb081fe1e43ae92e895deca086b4eed5cf9efc7b78eebbbc9dc75c3f0"
  else "ded787fd3ddc887828b1d6533e4a3a916df2c5ef25453aa1483944dae2014425"

def resetDB : DB := { aliceDB with
  security := ⟨[⟨"1", some "alice@example.org", true, 7⟩], by decide⟩
  emails := ⟨[⟨"alice@example.org", "1", false⟩], by decide⟩
  sessions := ⟨[⟨"browser", "alice"⟩], by decide⟩ }

def askCode : AccountCall :=
  .queueEmailPasswordReset "password_reset" "ticket" "alice@example.org" 601000 (codeHashOf true) "192.0.2.1" (.ok true)

def enterCode (right : Bool) : AccountCall := .resetPasswordWithEmailCode "alice@example.org" (codeHashOf right)
    "$argon2id$new"

/-- The step of a call, which is refused where it fails. -/
def stepOf (db : DB) (now : Int) (c : AccountCall) :
    Entry := ⟨db, now, some c, (execAccount resetEnv now db c).toOption.getD db⟩

def asked : Entry := stepOf resetDB 1000 askCode

/-- Somebody guesses, Alice takes another name, and she uses her code. -/
def guessed : Entry := stepOf asked.after 2000 (enterCode false)

def renamed : Entry := stepOf guessed.after 2500 (.updateUserProfile "alice" "alicia" none none)

def entered : Entry := stepOf renamed.after 3000 (enterCode true)

/-- An administrator gives the account another name and another password, and then the old ones again. -/
def taken : Entry := stepOf asked.after 2000 (.updateUserProfile "alice" "alicia" (some "$argon2id$new") none)

def returned : Entry := stepOf taken.after 2500 (.updateUserProfile "alicia" "alice" (some "$argon2id$") none)

def late : Entry := stepOf returned.after 3000 (enterCode true)

end Renop.AccountSecurity
