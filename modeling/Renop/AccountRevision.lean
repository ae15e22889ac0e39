import Renop.AccountLogin

/-!
# The revision of an account

`Later u`: an account keeps its addresses while its revision stays the same, the revision only grows, and an account that is
gone stays gone. Every call on accounts is such a change for every account. The password stays too, unless a profile update
sets one: that call alone does not make a new revision. A row of `user_account_security` carries the revision.
-/

namespace Renop.AccountSecurity

open Sql
open Renop.Cargo (Profile)

variable {env : Env} {db db' db'' : DB} {p q : Profile} {u v : String} {now : Int}

/-- The password hash and the revision of an account that is alive. -/
def DB.account? (db : DB) (u : String) : Option (String × Int) :=
  match db.profiles.find? u, db.security.find? u with
  | some p, some row =>
    match db.tokens.find? p.username with
    | some token => if token.deletedAt = 0 then some (token.encryptedSecret, row.updatedAt) else none
    | none => none
  | _, _ => none

/-- Whose an address is. -/
def DB.owner (db : DB) (email : String) : Option String := (db.emails.find? email).map (·.userID)

theorem account?_some {a : String × Int} : db.account? u = some a ↔ ∃ p row token, db.profiles.find? u = some p ∧
    db.security.find? u = some row ∧ db.tokens.find? p.username = some token ∧ token.deletedAt = 0 ∧
    a = (token.encryptedSecret, row.updatedAt) := by
  unfold DB.account?
  constructor
  · intro h
    split at h
    · rename_i p row hp hrow
      split at h
      · rename_i token htoken
        split at h
        · rename_i hdeleted
          exact ⟨p, row, token, hp, hrow, htoken, hdeleted, (Option.some.inj h).symm⟩
        · cases h
      · cases h
    · cases h
  · rintro ⟨p, row, token, hp, hrow, htoken, hdeleted, rfl⟩
    simp [hp, hrow, htoken, hdeleted]

/-- No token lets anyone in under the user id. -/
def Gone (u : String) (db : DB) : Prop :=
  ∀ p, db.profiles.find? u = some p → ∀ token, db.tokens.find? p.username = some token → 0 < token.deletedAt

/-- `kept` is when the password stays with the revision. -/
structure Later (u : String) (db db' : DB) (kept : Prop := True) : Prop where
  gone : Gone u db → Gone u db'
  account : ∀ secret revision, db.account? u = some (secret, revision) → Gone u db' ∨
    ∃ secret' revision', db'.account? u = some (secret', revision') ∧ (revision < revision' ∨
      (revision' = revision ∧ (kept → secret' = secret) ∧ ∀ email, db.owner email = some u →
        db'.owner email = some u))

theorem Later.weaken {kept kept' : Prop} (h : Later u db db' kept) (hkept : kept' → kept) : Later u db db' kept' := by
  refine ⟨h.gone, fun secret revision ha => ?_⟩
  rcases h.account secret revision ha with hgone | ⟨secret', revision', ha', hlt | ⟨hrev, hsecret, hkeep⟩⟩
  · exact .inl hgone
  · exact .inr ⟨secret', revision', ha', .inl hlt⟩
  · exact .inr ⟨secret', revision', ha', .inr ⟨hrev, hsecret ∘ hkept, hkeep⟩⟩

theorem Later.refl (u : String) (db : DB) {kept : Prop} : Later u db db kept :=
  ⟨id, fun secret revision h => .inr ⟨secret, revision, h, .inr ⟨rfl, fun _ => rfl, fun _ => id⟩⟩⟩

theorem Later.trans {kept : Prop} (h : Later u db db' kept) (h' : Later u db' db'' kept) : Later u db db'' kept := by
  refine ⟨h'.gone ∘ h.gone, fun secret revision ha => ?_⟩
  rcases h.account secret revision ha with hgone | ⟨secret₁, revision₁, ha₁, hstep⟩
  · exact .inl (h'.gone hgone)
  rcases h'.account secret₁ revision₁ ha₁ with hgone | ⟨secret₂, revision₂, ha₂, hstep'⟩
  · exact .inl hgone
  refine .inr ⟨secret₂, revision₂, ha₂, ?_⟩
  rcases hstep with hlt | ⟨rfl, hsecret, hkeep⟩
  · rcases hstep' with hlt' | ⟨rfl, -, -⟩
    · exact .inl (by omega)
    · exact .inl hlt
  · rcases hstep' with hlt' | ⟨hrev, hsecret', hkeep'⟩
    · exact .inl hlt'
    · exact .inr ⟨hrev, fun hkept => (hsecret' hkept).trans (hsecret hkept), fun email => hkeep' email ∘ hkeep email⟩

/-! ### Shapes of a change -/

theorem Later.of_same (hprofile : db'.profiles.find? u = db.profiles.find? u)
    (htoken : ∀ p, db.profiles.find? u = some p → db'.tokens.find? p.username = db.tokens.find? p.username)
    (hsecurity : db'.security.find? u = db.security.find? u)
    (hemails : ∀ email, db.owner email = some u → db'.owner email = some u) : Later u db db' := by
  refine ⟨fun hgone p hp token ht => ?_, fun secret revision ha =>
    .inr ⟨secret, revision, ?_, .inr ⟨rfl, fun _ => rfl, hemails⟩⟩⟩
  · rw [hprofile] at hp
    rw [htoken p hp] at ht
    exact hgone p hp token ht
  · obtain ⟨p, row, token, hp, hrow, ht, hdeleted, heq⟩ := account?_some.1 ha
    exact account?_some.2 ⟨p, row, token, by rw [hprofile, hp], by rw [hsecurity, hrow], by rw [htoken p hp, ht],
      hdeleted, heq⟩

/-- Only the account `v` changes, and it gets a new revision. -/
structure Touches (v : String) (db db' : DB) : Prop where
  profiles : db'.profiles = db.profiles
  tokens : ∀ name, (db'.tokens.find? name).map (·.deletedAt) = (db.tokens.find? name).map (·.deletedAt)
  secrets : ∀ p ∈ db.profiles.rows, p.userID ≠ v → db'.tokens.find? p.username = db.tokens.find? p.username
  other : ∀ w, w ≠ v → db'.security.find? w = db.security.find? w
  row : ∃ row, db'.security.find? v = some row ∧ ∀ old, db.security.find? v = some old → old.updatedAt < row.updatedAt
  emails : ∀ email w, w ≠ v → db.owner email = some w → db'.owner email = some w
  resets : db'.resets = db.resets

theorem Touches.newer (h : Touches v db db') {secret : String} {revision : Int}
    (ha : db.account? v = some (secret, revision)) :
    ∃ secret' revision', db'.account? v = some (secret', revision') ∧ revision < revision' := by
  obtain ⟨p, old, token, hp, hold, ht, hdeleted, heq⟩ := account?_some.1 ha
  obtain ⟨row, hrow, hlt⟩ := h.row
  have hmap := h.tokens p.username
  rw [ht, Option.map_some] at hmap
  obtain ⟨token', ht', hdeleted'⟩ := Option.map_eq_some_iff.1 hmap
  cases heq
  exact ⟨token'.encryptedSecret, row.updatedAt, account?_some.2
    ⟨p, row, token', by rw [h.profiles]; exact hp, hrow, ht', hdeleted'.trans hdeleted, rfl⟩, hlt old hold⟩

theorem Touches.later (h : Touches v db db') : Later u db db' := by
  by_cases hv : u = v
  · subst hv
    refine ⟨fun hgone p hp token' ht' => ?_, fun secret revision ha => .inr ?_⟩
    · have hmap := h.tokens p.username
      rw [ht', Option.map_some] at hmap
      obtain ⟨token, ht, hdeleted⟩ := Option.map_eq_some_iff.1 hmap.symm
      rw [← hdeleted]
      exact hgone p (by rw [← h.profiles]; exact hp) token ht
    · obtain ⟨secret', revision', ha', hlt⟩ := h.newer ha
      exact ⟨secret', revision', ha', .inl hlt⟩
  · refine .of_same (by rw [h.profiles]) (fun p hp => ?_) (h.other u hv) fun email => h.emails email u hv
    obtain ⟨hmem, hid⟩ := Table.find?_eq_some.1 hp
    exact h.secrets p hmem (by rw [hid]; exact hv)

theorem Revised.touches {policy : Bool} (h : Revised db db' v policy) : Touches v db db' := by
  have hother := h.other
  obtain ⟨row, hrow, -, hlt⟩ := h.row
  obtain ⟨security, rfl⟩ := h.rest
  exact ⟨rfl, fun _ => rfl, fun _ _ _ => rfl, hother, ⟨row, hrow, hlt⟩, fun _ _ _ => id, rfl⟩

theorem Touches.after {policy : Bool} (h : Revised db' db'' v policy) (hprofiles : db'.profiles = db.profiles)
    (htokens : ∀ name, (db'.tokens.find? name).map (·.deletedAt) = (db.tokens.find? name).map (·.deletedAt))
    (hsecrets : ∀ p ∈ db.profiles.rows, p.userID ≠ v → db'.tokens.find? p.username = db.tokens.find? p.username)
    (hsecurity : db'.security = db.security)
    (hemails : ∀ email w, w ≠ v → db.owner email = some w → db'.owner email = some w)
    (hresets : db'.resets = db.resets) : Touches v db db'' := by
  have hother := h.other
  obtain ⟨row, hrow, -, hlt⟩ := h.row
  obtain ⟨security, rfl⟩ := h.rest
  rw [hsecurity] at hother hlt
  exact ⟨hprofiles, htokens, hsecrets, hother, ⟨row, hrow, hlt⟩, hemails, hresets⟩

/-! ### Addresses -/

theorem owner_some {email : String} : db.owner email = some u ↔ ∃ a, db.emails.find? email = some a ∧ a.userID = u := by
  unfold DB.owner
  rw [Option.map_eq_some_iff]

theorem reserveEmail_keeps {emails emails' : Table EmailAddress.email} {retained : Bool} {e : String × Bool} {k : String}
    {a : EmailAddress} (h : reserveEmail u retained emails e = .ok emails') (ha : emails.find? k = some a) :
    ∃ a', emails'.find? k = some a' ∧ a'.userID = a.userID := by
  unfold reserveEmail at h
  split at h
  · obtain ⟨-, h⟩ := require_bind_ok.1 h
    cases h
    rw [Table.find?_update, ha, Option.map_some]
    refine ⟨_, rfl, ?_⟩
    split <;> rfl
  · rename_i hnone
    obtain ⟨-, h⟩ := require_bind_ok.1 h
    rw [Table.find?_insert h]
    have hk : k ≠ e.1 := by
      rintro rfl
      rw [hnone] at ha
      cases ha
    rw [if_neg hk]
    exact ⟨a, ha, rfl⟩

theorem foldlM_reserveEmail_keeps {retained : Bool} {l : List (String × Bool)} :
    ∀ {emails emails' : Table EmailAddress.email} {k : String} {a : EmailAddress},
      l.foldlM (reserveEmail u retained) emails = .ok emails' → emails.find? k = some a →
      ∃ a', emails'.find? k = some a' ∧ a'.userID = a.userID := by
  induction l with
  | nil =>
    intro emails emails' k a h ha
    cases h
    exact ⟨a, ha, rfl⟩
  | cons e l ih =>
    intro emails emails' k a h ha
    rw [List.foldlM_cons] at h
    obtain ⟨emails₁, hone, h⟩ := bind_ok.1 h
    obtain ⟨a₁, ha₁, hid₁⟩ := reserveEmail_keeps hone ha
    obtain ⟨a₂, ha₂, hid₂⟩ := ih h ha₁
    exact ⟨a₂, ha₂, hid₂.trans hid₁⟩

theorem reserveAccountEmails_ok {proofs : List ProviderEmail} {retained : Bool} {r : Bool × DB}
    (h : reserveAccountEmails env db u proofs retained = .ok r) :
    (∃ emails, r.2 = { db with emails := emails }) ∧ ∀ email w, db.owner email = some w →
      r.2.owner email = some w := by
  unfold reserveAccountEmails at h
  split at h
  · cases h
    exact ⟨⟨db.emails, rfl⟩, fun _ _ => id⟩
  · obtain ⟨-, h⟩ := require_bind_ok.1 h
    obtain ⟨collected, -, h⟩ := bind_ok.1 h
    obtain ⟨emails, hfold, h⟩ := bind_ok.1 h
    obtain ⟨-, h⟩ := require_bind_ok.1 h
    cases h
    refine ⟨⟨emails, rfl⟩, fun email w how => ?_⟩
    obtain ⟨a, ha, hid⟩ := owner_some.1 how
    obtain ⟨a', ha', hid'⟩ := foldlM_reserveEmail_keeps hfold ha
    exact owner_some.2 ⟨a', ha', hid'.trans hid⟩

theorem owner_deleteEmails {gone : EmailAddress → Bool} (hgone : ∀ a, gone a = true → a.userID = v) {email w : String}
    (hw : w ≠ v) (h : db.owner email = some w) :
    DB.owner { db with emails := db.emails.delete gone } email = some w := by
  obtain ⟨a, ha, hid⟩ := owner_some.1 h
  refine owner_some.2 ⟨a, ?_, hid⟩
  obtain ⟨hmem, hkey⟩ := Table.find?_eq_some.1 ha
  refine Table.find?_eq_some.2 ⟨List.mem_filter.2 ⟨hmem, ?_⟩, hkey⟩
  cases hg : gone a with
  | true => exact absurd (hid.symm.trans (hgone a hg)) hw
  | false => rfl

theorem touches_updateAccountEmailTx {email : String} (h : updateAccountEmailTx env db v email now = .ok db') :
    Touches v db db' := by
  obtain ⟨⟨changed, db₁⟩, hreserve, h⟩ := bind_ok.1 h
  dsimp only at h
  obtain ⟨db₂, hensure, h⟩ := bind_ok.1 h
  obtain ⟨-, h⟩ := require_bind_ok.1 h
  cases h
  have hkeep : (∃ emails, db₁ = { db with emails := emails }) ∧
      ∀ k w, w ≠ v → db.owner k = some w → db₁.owner k = some w := by
    have hdelete : ∀ k w, w ≠ v → db.owner k = some w →
        DB.owner { db with emails := db.emails.delete fun a => a.userID = v && !a.retained && a.email ≠ email } k =
            some w := by
      intro k w hw how
      refine owner_deleteEmails (fun a ha => ?_) hw how
      simp only [Bool.and_eq_true, decide_eq_true_eq] at ha
      exact ha.1.1
    by_cases hne : email ≠ ""
    · rw [decide_eq_true hne, cond_true] at hreserve
      obtain ⟨⟨emails, hrest⟩, hadd⟩ := reserveAccountEmails_ok hreserve
      exact ⟨⟨emails, hrest⟩, fun k w hw how => hadd k w (hdelete k w hw how)⟩
    · rw [decide_eq_false hne, cond_false] at hreserve
      cases hreserve
      exact ⟨⟨_, rfl⟩, hdelete⟩
  obtain ⟨⟨emails, rfl⟩, hemails⟩ := hkeep
  exact .after (revised_updateSecurity hensure fun _ => id) rfl (fun _ => rfl) (fun _ _ _ => rfl) rfl hemails rfl

/-! ### Calls that make a new revision -/

theorem Later.of_tables (hprofiles : db'.profiles = db.profiles) (htokens : db'.tokens = db.tokens)
    (hsecurity : db'.security = db.security) (hemails : db'.emails = db.emails) : Later u db db' :=
  .of_same (by rw [hprofiles]) (fun _ _ => by rw [htokens]) (by rw [hsecurity]) fun _ h => by
    unfold DB.owner at h ⊢
    rwa [hemails]

theorem touches_setSecret {policy : Bool} {passwordHash : String} (hp : p ∈ db.profiles.rows)
    (h : Revised (db.setSecret p.username passwordHash) db' p.userID policy) : Touches p.userID db db' := by
  refine .after h rfl (fun name => ?_) (fun q hq hne => ?_) rfl (fun _ _ _ => id) rfl
  · rw [find?_setSecret, Option.map_map]
    congr 1
    funext token
    simp only [Function.comp_apply]
    split <;> rfl
  · have hname : q.username ≠ p.username := fun heq => hne (by rw [profile_ext hq hp (.inl heq)])
    rw [find?_setSecret]
    cases ht : db.tokens.find? q.username with
    | none => rfl
    | some token =>
      have hkey : token.name = q.username := (Table.find?_eq_some.1 ht).2
      rw [Option.map_some, if_neg (by rw [hkey]; exact hname)]

theorem touches_resetAccountPassword {passwordHash : String} (hp : p ∈ db.profiles.rows)
    (h : resetAccountPassword db p.userID p.username passwordHash now = .ok db') :
    Touches p.userID db db' ∧ ∀ s ∈ db'.sessions.rows, s.username ≠ p.username := by
  obtain ⟨-, h⟩ := require_bind_ok.1 h
  obtain ⟨db₁, hpolicy, h⟩ := bind_ok.1 h
  cases h
  have hrevised := setPolicy_ok hpolicy
  have htouches := touches_setSecret hp hrevised
  obtain ⟨security, rfl⟩ := hrevised.rest
  refine ⟨⟨htouches.profiles, htouches.tokens, htouches.secrets, htouches.other, htouches.row, htouches.emails,
    htouches.resets⟩, fun s hs => ?_⟩
  have hkept := (List.mem_filter.1 hs).2
  simpa using hkept

theorem touches_setAccountPassword (hl : env.Lawful) {username passwordHash : String}
    (h : setAccountPassword env db username passwordHash now = .ok db') : ∃ v, Touches v db db' := by
  obtain ⟨-, h⟩ := require_bind_ok.1 h
  obtain ⟨userID, huser, h⟩ := bind_ok.1 h
  obtain ⟨_, -, h⟩ := bind_ok.1 h
  obtain ⟨-, h⟩ := require_bind_ok.1 h
  obtain ⟨p, hp, hname, rfl⟩ := userIDForExistingAccount_ok hl huser
  rw [← hname] at h
  exact ⟨p.userID, touches_setSecret hp (setPolicy_ok h)⟩

theorem touches_setPasswordLoginEnabled {username : String} {enabled : Bool}
    (h : setPasswordLoginEnabled env db username enabled now = .ok db') : ∃ v, Touches v db db' := by
  obtain ⟨userID, -, h⟩ := bind_ok.1 h
  obtain ⟨_, -, h⟩ := bind_ok.1 h
  obtain ⟨_, -, h⟩ := bind_ok.1 h
  obtain ⟨-, h⟩ := require_bind_ok.1 h
  obtain ⟨-, h⟩ := require_bind_ok.1 h
  exact ⟨userID, (setPolicy_ok h).touches⟩

theorem touches_updateAccountEmail {username email : String}
    (h : updateAccountEmail env db username email now = .ok db') : ∃ v, Touches v db db' := by
  obtain ⟨email, -, h⟩ := bind_ok.1 h
  obtain ⟨userID, -, h⟩ := bind_ok.1 h
  obtain ⟨_, -, h⟩ := bind_ok.1 h
  exact ⟨userID, touches_updateAccountEmailTx h⟩

theorem Touches.reserved {proofs : List ProviderEmail} {retained : Bool} {w : String} {r : Bool × DB}
    (hreserve : reserveAccountEmails env db w proofs retained = .ok r) (h : Touches v r.2 db') : Touches v db db' := by
  obtain ⟨⟨emails, hrest⟩, hadd⟩ := reserveAccountEmails_ok hreserve
  have hprofiles : r.2.profiles = db.profiles := by rw [hrest]
  have htokens : r.2.tokens = db.tokens := by rw [hrest]
  have hsecurity : r.2.security = db.security := by rw [hrest]
  have hresets : r.2.resets = db.resets := by rw [hrest]
  obtain ⟨h₁, h₂, h₃, h₄, h₅, h₆, h₇⟩ := h
  rw [hprofiles] at h₁ h₃
  rw [htokens] at h₂ h₃
  rw [hsecurity] at h₄ h₅
  exact ⟨h₁, h₂, h₃, h₄, h₅, fun email w hw how => h₆ email w hw (hadd email w how),
    h₇.trans hresets⟩

theorem touches_applyEmailChange {email : String} {isAlias : Bool}
    (h : applyEmailChange env db v email isAlias now = .ok db') : Touches v db db' := by
  unfold applyEmailChange at h
  split at h
  · obtain ⟨r, hreserve, h⟩ := bind_ok.1 h
    exact .reserved hreserve (touchAccountSecurity_ok h).touches
  · exact touches_updateAccountEmailTx h

theorem Touches.deleteEmailChange {w : String} (h : Touches v db db') : Touches v db (db'.deleteEmailChange w) :=
  ⟨h.profiles, h.tokens, h.secrets, h.other, h.row, h.emails, h.resets⟩

theorem touches_updateAccountEmailFromSession {username session email snapshot : String} {clock : Int}
    {providerEmails : List ProviderEmail}
    (h : updateAccountEmailFromSession env db username session email snapshot now clock providerEmails = .ok db') :
    ∃ v, Touches v db db' := by
  obtain ⟨email, -, h⟩ := bind_ok.1 h
  obtain ⟨-, h⟩ := require_bind_ok.1 h
  obtain ⟨account, -, h⟩ := bind_ok.1 h
  obtain ⟨-, h⟩ := require_bind_ok.1 h
  obtain ⟨r, hreserve, h⟩ := bind_ok.1 h
  obtain ⟨db₂, hupdate, h⟩ := bind_ok.1 h
  cases h
  exact ⟨account.userID, (Touches.reserved hreserve (touches_updateAccountEmailTx hupdate)).deleteEmailChange⟩

theorem touches_deleteAccountEmailAlias {username session email : String} {clock : Int}
    (h : deleteAccountEmailAlias env db username session email now clock = .ok db') : ∃ v, Touches v db db' := by
  obtain ⟨email, -, h⟩ := bind_ok.1 h
  obtain ⟨-, h⟩ := require_bind_ok.1 h
  obtain ⟨account, -, h⟩ := bind_ok.1 h
  obtain ⟨-, h⟩ := require_bind_ok.1 h
  refine ⟨account.userID, .after (touchAccountSecurity_ok h) rfl (fun _ => rfl) (fun _ _ _ => rfl) rfl (fun k w hw how =>
    ?_) rfl⟩
  refine owner_deleteEmails (fun a ha => ?_) hw how
  simp only [Bool.and_eq_true, decide_eq_true_eq] at ha
  exact ha.1

theorem later_confirmAccountEmailChange {username session email codeHash : String} {clock : Int} {r : Bool × DB}
    (h : confirmAccountEmailChange env db username session email codeHash now clock = .ok r) :
    r.2.profiles = db.profiles ∧ r.2.resets = db.resets ∧ ∀ u, Later u db r.2 := by
  obtain ⟨email, -, h⟩ := bind_ok.1 h
  obtain ⟨-, h⟩ := require_bind_ok.1 h
  obtain ⟨account, -, h⟩ := bind_ok.1 h
  obtain ⟨change, -, h⟩ := bind_ok.1 h
  obtain ⟨-, h⟩ := require_bind_ok.1 h
  split at h
  · cases h
    exact ⟨rfl, rfl, fun _ => .of_tables rfl rfl rfl rfl⟩
  · obtain ⟨db₁, happly, h⟩ := bind_ok.1 h
    cases h
    have htouches := (touches_applyEmailChange happly).deleteEmailChange (w := account.userID)
    exact ⟨htouches.profiles, htouches.resets, fun _ => htouches.later⟩

/-! ### Names and removal -/

theorem Later.of_gone {kept : Prop} (h : Gone u db') : Later u db db' kept := ⟨fun _ => h, fun _ _ _ => .inl h⟩

theorem find?_renameProfile {oldName newName : String} {profiles : Profiles}
    (h : renameProfile db oldName newName = .ok profiles) :
    (∀ p ∈ db.profiles.rows, p.username ≠ newName) ∧ ∀ w, profiles.find? w =
      (db.profiles.find? w).map fun p => if p.username = oldName then { p with username := newName } else p := by
  unfold renameProfile at h
  split at h
  · rename_i hnew
    cases h
    exact ⟨hnew, fun w => by rw [Table.find?_update]⟩
  · cases h

/-- What a rename writes: the token of the caller under the new name, beside the profile. -/
structure Renames (oldName newName : String) (token : TokenRow) (db db' : DB) : Prop where
  vacant : ∀ p ∈ db.profiles.rows, p.username ≠ newName
  profiles : ∀ w, db'.profiles.find? w =
    (db.profiles.find? w).map fun p => if p.username = oldName then { p with username := newName } else p
  names : ∀ q ∈ db'.profiles.rows, q.username = newName ∨ q ∈ db.profiles.rows
  token : db'.tokens.find? newName = some { token with name := newName, deletedAt := 0 }
  others : ∀ name, name ≠ oldName → name ≠ newName → db'.tokens.find? name = db.tokens.find? name
  security : db'.security = db.security
  emails : db'.emails = db.emails
  resets : db'.resets = db.resets

theorem renameAccount_ok {oldName newName : String} {token : TokenRow} {refused : Option SecurityError}
    (h : renameAccount db oldName newName token refused = .ok db') : Renames oldName newName token db db' := by
  obtain ⟨db₁, htokens, h⟩ := bind_ok.1 h
  obtain ⟨profiles, hrename, h⟩ := bind_ok.1 h
  cases h
  obtain ⟨-, htokens⟩ := require_bind_ok.1 htokens
  obtain ⟨-, htokens⟩ := require_bind_ok.1 htokens
  obtain ⟨tokens, hins, htokens⟩ := bind_ok.1 htokens
  cases htokens
  have hinserted := Table.find?_insert hins
  obtain ⟨hvacant, hfind⟩ := find?_renameProfile hrename
  refine ⟨hvacant, hfind, fun q hq => ?_, (hinserted newName).trans (if_pos rfl), fun name hold hnew => ?_, rfl, rfl, rfl⟩
  · have hq' := (hfind q.userID).symm.trans (Table.find?_eq_some.2 ⟨hq, rfl⟩)
    obtain ⟨q₀, hq₀, rfl⟩ := Option.map_eq_some_iff.1 hq'
    split
    · exact .inl rfl
    · exact .inr (Table.find?_eq_some.1 hq₀).1
  · refine (hinserted name).trans ((if_neg hnew).trans ?_)
    exact Table.find?_delete_of fun t ht => by simp [ht, hold]

/-- The token moves with the profile. -/
theorem Renames.later {oldName newName : String} {token current : TokenRow} (h : Renames oldName newName token db db')
    (hcurrent : db.tokens.find? oldName = some current) (halive : current.deletedAt ≤ 0) :
    Later u db db' (∀ p, db.profiles.find? u = some p → p.username = oldName →
      token.encryptedSecret = current.encryptedSecret) := by
  have hfind := h.profiles u
  cases hq : db.profiles.find? u with
  | none =>
    rw [hq, Option.map_none] at hfind
    exact .of_gone fun q hq' => by rw [hfind] at hq'; cases hq'
  | some q =>
    have hmem := (Table.find?_eq_some.1 hq).1
    rw [hq, Option.map_some] at hfind
    by_cases hold : q.username = oldName
    · -- the account itself is renamed
      rw [if_pos hold] at hfind
      refine ⟨fun hgone => ?_, fun secret revision ha => ?_⟩
      · have hdead := hgone q hq current (by rw [hold]; exact hcurrent)
        omega
      · obtain ⟨q₁, row, token₁, hq₁, hrow, ht₁, hdeleted, heq⟩ := account?_some.1 ha
        rw [hq] at hq₁
        cases hq₁
        rw [hold, hcurrent] at ht₁
        cases ht₁
        cases heq
        refine .inr ⟨token.encryptedSecret, row.updatedAt,
          account?_some.2 ⟨_, row, _, hfind, by rw [h.security]; exact hrow, h.token, rfl, rfl⟩,
          .inr ⟨rfl, fun hkept => hkept q rfl hold, fun email how => ?_⟩⟩
        unfold DB.owner at how ⊢
        rw [h.emails]
        exact how
    · rw [if_neg hold] at hfind
      refine Later.weaken (.of_same (hfind.trans hq.symm) (fun q₁ hq₁ => ?_) (by rw [h.security]) fun email how => ?_)
        fun _ => trivial
      · rw [hq] at hq₁
        cases hq₁
        exact h.others q.username hold (h.vacant q hmem)
      · unfold DB.owner at how ⊢
        rw [h.emails]
        exact how

theorem renameToken_ok {oldName newName : String} {refused : Option SecurityError}
    (h : renameToken env db oldName newName refused = .ok db') : ∃ current,
      db.tokens.find? (tokenName env oldName) = some current ∧ current.deletedAt ≤ 0 ∧
      Renames (tokenName env oldName) (tokenName env newName) current db db' := by
  obtain ⟨-, h⟩ := require_bind_ok.1 h
  obtain ⟨p, -, h⟩ := bind_ok.1 h
  obtain ⟨_, -, h⟩ := bind_ok.1 h
  obtain ⟨token, htoken, h⟩ := bind_ok.1 h
  obtain ⟨halive, h⟩ := require_bind_ok.1 h
  exact ⟨token, orError_ok.1 htoken, halive, renameAccount_ok h⟩

theorem lockAccountLoginMethods_alive {token : TokenRow} (hp : p ∈ db.profiles.rows)
    (ht : db.tokens.find? p.username = some token) {r : Unit} (h : lockAccountLoginMethods db p.userID = .ok r) :
    token.deletedAt ≤ 0 := by
  unfold lockAccountLoginMethods at h
  rw [find?_profile hp, Option.bind_some, ht] at h
  exact require_ok.1 h

theorem updateUserProfile_ok {oldName newName : String} {password : Option String} {refused : Option SecurityError}
    (h : updateUserProfile env db oldName newName password refused = .ok db') : ∃ p current,
      p ∈ db.profiles.rows ∧ p.username = tokenName env oldName ∧ db.tokens.find? p.username = some current ∧
      current.deletedAt ≤ 0 ∧ (db' = db.setSecret p.username (password.getD current.encryptedSecret) ∨
        Renames p.username (tokenName env newName) { current with encryptedSecret := password.getD current.encryptedSecret }
          db db') := by
  obtain ⟨-, h⟩ := require_bind_ok.1 h
  obtain ⟨p, hp, h⟩ := bind_ok.1 h
  obtain ⟨_, hlock, h⟩ := bind_ok.1 h
  obtain ⟨current, hcurrent, h⟩ := bind_ok.1 h
  obtain ⟨hmem, hname⟩ := profileByName_some (orError_ok.1 hp)
  have htoken := orError_ok.1 hcurrent
  rw [← hname] at htoken h
  refine ⟨p, current, hmem, hname, htoken, lockAccountLoginMethods_alive hmem htoken hlock, ?_⟩
  split at h
  · obtain ⟨-, h⟩ := require_bind_ok.1 h
    cases h
    exact .inl rfl
  · exact .inr (renameAccount_ok h)

/-- A profile update gives an account a password hash that is not its own. -/
def ChangesPassword (env : Env) (db : DB) (oldName : String) (password : Option String) (u : String) : Prop :=
  ∃ p current, db.profiles.find? u = some p ∧ p.username = tokenName env oldName ∧
    db.tokens.find? p.username = some current ∧ password.getD current.encryptedSecret ≠ current.encryptedSecret

theorem later_updateUserProfile {oldName newName : String} {password : Option String} {refused : Option SecurityError}
    (h : updateUserProfile env db oldName newName password refused = .ok db') :
    Later u db db' (¬ ChangesPassword env db oldName password u) := by
  obtain ⟨p, current, hmem, hname, hcurrent, halive, rfl | hrenames⟩ := updateUserProfile_ok h
  · refine ⟨fun hgone q hq t ht => ?_, fun secret revision ha => .inr ?_⟩
    · rw [find?_setSecret] at ht
      obtain ⟨t₀, ht₀, rfl⟩ := Option.map_eq_some_iff.1 ht
      have hdead := hgone q hq t₀ ht₀
      split <;> exact hdead
    · obtain ⟨q, row, token, hq, hrow, ht, hdeleted, heq⟩ := account?_some.1 ha
      cases heq
      refine ⟨_, row.updatedAt, account?_some.2 ⟨q, row, _, hq,
        hrow, by rw [find?_setSecret, ht, Option.map_some], ?_, rfl⟩, .inr ⟨rfl, fun hkept => ?_, fun _ => id⟩⟩
      · split <;> exact hdeleted
      · have hkey : token.name = q.username := (Table.find?_eq_some.1 ht).2
        split
        · rename_i hpq
          rw [hkey] at hpq
          rw [hpq, hcurrent] at ht
          cases ht
          exact by_contra fun hne => hkept ⟨q, current, hq, hpq.trans hname, by rw [hpq]; exact hcurrent, hne⟩
        · rfl
  · refine (hrenames.later hcurrent halive).weaken fun hkept q hq hqp => ?_
    exact by_contra fun hne => hkept ⟨q, current, hq, hqp.trans hname, by rw [hqp]; exact hcurrent, hne⟩

theorem account?_updateUserProfile {oldName newName : String} {password : Option String} {refused : Option SecurityError}
    (h : updateUserProfile env db oldName newName password refused = .ok db')
    (hchanges : ChangesPassword env db oldName password u) {secret : String} {revision : Int}
    (ha : db.account? u = some (secret, revision)) :
      ∃ secret', db'.account? u = some (secret', revision) ∧ secret' ≠ secret := by
  obtain ⟨q, row, token, hq, hrow, ht, hdeleted, heq⟩ := account?_some.1 ha
  cases heq
  obtain ⟨q', current', hq', hname', hcurrent', hne⟩ := hchanges
  cases hq.symm.trans hq'
  cases ht.symm.trans hcurrent'
  obtain ⟨hqmem, -⟩ := Table.find?_eq_some.1 hq
  obtain ⟨p, current, hmem, hname, hcurrent, halive, hrest⟩ := updateUserProfile_ok h
  obtain rfl : q = p := profile_ext hqmem hmem (.inl (hname'.trans hname.symm))
  cases ht.symm.trans hcurrent
  rcases hrest with rfl | hrenames
  · have hkey : token.name = q.username := (Table.find?_eq_some.1 ht).2
    exact ⟨_, account?_some.2 ⟨q, row, { token with encryptedSecret := password.getD token.encryptedSecret }, hq, hrow,
      by rw [find?_setSecret, ht, Option.map_some, if_pos hkey], hdeleted, rfl⟩, hne⟩
  · have hprofile := hrenames.profiles u
    rw [hq, Option.map_some, if_pos rfl] at hprofile
    exact ⟨_, account?_some.2 ⟨_, row, _, hprofile, by rw [hrenames.security]; exact hrow, hrenames.token, rfl, rfl⟩,
      hne⟩

/-- Names are in lower case. -/
def Named (env : Env) (db : DB) : Prop := ∀ p ∈ db.profiles.rows, env.toLower p.username = p.username

theorem Named.renames (hnames : Named env db) (hl : env.Lawful) {oldName newName : String} {token : TokenRow}
    (h : Renames oldName (tokenName env newName) token db db') : Named env db' := by
  intro q hq
  rcases h.names q hq with hnew | hq
  · rw [hnew]
    exact hl.toLower_toLower _
  · exact hnames q hq

theorem Named.deleteToken (hnames : Named env db) {name : String} {retire : Bool} {actedAt : Int}
    {refused : Option SecurityError}
    (h : deleteToken env db name retire actedAt refused = .ok db') : Named env db' ∧ db'.resets = db.resets := by
  obtain ⟨-, h⟩ := require_bind_ok.1 h
  split at h
  · cases h
    exact ⟨hnames, rfl⟩
  obtain ⟨_, -, h⟩ := bind_ok.1 h
  obtain ⟨_, -, h⟩ := bind_ok.1 h
  obtain ⟨_, -, h⟩ := bind_ok.1 h
  obtain ⟨-, h⟩ := require_bind_ok.1 h
  obtain ⟨-, h⟩ := require_bind_ok.1 h
  dsimp only at h
  split at h
  · cases h
    exact ⟨hnames, rfl⟩
  · cases h
    exact ⟨fun q hq => hnames q (List.mem_filter.1 hq).1, rfl⟩

theorem find?_dropProfile {name w : String} (h : ∀ q, db.profiles.find? w = some q → q.username ≠ name) :
    (dropProfile db name).find? w = db.profiles.find? w := by
  cases hq : db.profiles.find? w with
  | none =>
    refine Table.find?_eq_none.2 fun q hq' => ?_
    exact Table.find?_eq_none.1 hq q (List.mem_filter.1 hq').1
  | some q =>
    obtain ⟨hmem, hid⟩ := Table.find?_eq_some.1 hq
    refine Table.find?_eq_some.2 ⟨List.mem_filter.2 ⟨hmem, ?_⟩, hid⟩
    simpa using h q hq

theorem later_deleteToken {name : String} {retire : Bool} {actedAt : Int} {refused : Option SecurityError}
    (h : deleteToken env db name retire actedAt refused = .ok db') : Later u db db' := by
  obtain ⟨hacted, h⟩ := require_bind_ok.1 h
  split at h
  · cases h
    exact .refl u _
  obtain ⟨p, hp, h⟩ := bind_ok.1 h
  obtain ⟨_, -, h⟩ := bind_ok.1 h
  obtain ⟨token, htoken, h⟩ := bind_ok.1 h
  obtain ⟨⟨-, halive⟩, h⟩ := require_bind_ok.1 h
  obtain ⟨-, h⟩ := require_bind_ok.1 h
  obtain ⟨hmem, hname⟩ := profileByName_some (orError_ok.1 hp)
  have htok := orError_ok.1 htoken
  have hkey : token.name = p.username := (Table.find?_eq_some.1 htok).2.trans hname.symm
  -- another account has another name
  have hothers : u ≠ p.userID → ∀ q, db.profiles.find? u = some q → q.username ≠ p.username := by
    intro hu q hq heq
    obtain ⟨hqmem, hqid⟩ := Table.find?_eq_some.1 hq
    exact hu (by rw [← hqid, profile_ext hqmem hmem (.inl heq)])
  dsimp only at h
  split at h
  · rename_i hretire
    cases h
    have hpos : 0 < actedAt := hacted.resolve_left (by simp [hretire])
    have hzero : token.deletedAt = 0 := halive.resolve_left (by simp [hretire])
    by_cases hu : u = p.userID
    · refine .of_gone fun q hq t ht => ?_
      have hq' : db.profiles.find? u = some q := hq
      rw [hu, find?_profile hmem] at hq'
      cases hq'
      rw [Table.find?_update, hname, htok, Option.map_some, if_pos ⟨hkey.trans hname, hzero⟩] at ht
      cases ht
      exact hpos
    · refine .of_same rfl (fun q hq => ?_) ?_ fun _ => id
      · rw [Table.find?_update]
        cases ht : db.tokens.find? q.username with
        | none => rfl
        | some t =>
          have hqkey : t.name = q.username := (Table.find?_eq_some.1 ht).2
          rw [Option.map_some, if_neg fun hc => hothers hu q hq (hqkey.symm.trans (hc.1.trans hname.symm))]
      · rw [Table.find?_update]
        cases hr : db.security.find? u with
        | none => rfl
        | some row =>
          have hrkey : row.userID = u := (Table.find?_eq_some.1 hr).2
          rw [Option.map_some, if_neg (by rw [hrkey]; exact hu)]
  · cases h
    rw [← hname]
    by_cases hu : u = p.userID
    · refine .of_gone fun q hq => ?_
      obtain ⟨hqmem, hqid⟩ := Table.find?_eq_some.1 hq
      obtain ⟨hqmem, hkept⟩ := List.mem_filter.1 hqmem
      have hpq : q = p := profile_ext hqmem hmem (.inr (hqid.trans hu))
      rw [hpq] at hkept
      simp at hkept
    · refine .of_same (find?_dropProfile (hothers hu)) (fun q hq => ?_) ?_ fun email how => ?_
      · exact Table.find?_delete_of fun t ht => by simp [ht, hothers hu q hq]
      · exact Table.find?_delete_of fun row hrow => by simp [hrow, hu]
      · exact owner_deleteEmails (fun a ha => by simpa using ha) hu how

theorem later_releaseRetiredAccountEmail {username : String} (h : releaseRetiredAccountEmail env db username now = .ok db') :
    db'.profiles = db.profiles ∧ db'.resets = db.resets ∧ ∀ u, Later u db db' := by
  obtain ⟨-, h⟩ := require_bind_ok.1 h
  obtain ⟨token, htoken, h⟩ := bind_ok.1 h
  obtain ⟨p, hp, h⟩ := bind_ok.1 h
  obtain ⟨hdead, h⟩ := require_bind_ok.1 h
  cases h
  obtain ⟨hmem, hname⟩ := profileByName_some (orError_ok.1 hp)
  refine ⟨rfl, rfl, fun u => ?_⟩
  by_cases hu : u = p.userID
  · refine .of_gone fun q hq t ht => ?_
    have hq' : db.profiles.find? u = some q := hq
    rw [hu, find?_profile hmem] at hq'
    cases hq'
    have ht' : db.tokens.find? p.username = some t := ht
    rw [hname, orError_ok.1 htoken] at ht'
    cases ht'
    exact hdead
  · refine .of_same rfl (fun _ _ => rfl) ?_ fun email how => ?_
    · rw [Table.find?_update]
      cases hr : db.security.find? u with
      | none => rfl
      | some row =>
        have hkey : row.userID = u := (Table.find?_eq_some.1 hr).2
        rw [Option.map_some, if_neg (by rw [hkey]; exact hu)]
    · exact owner_deleteEmails (fun a ha => by simpa using ha) hu how

end Renop.AccountSecurity
