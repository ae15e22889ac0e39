import Renop.DockerMembers
import Renop.SuperTeamOwners

/-!
# The owner of an image

Whatever the calls do, a member belongs to an image that exists (`Housed`) and no two users have one name. An image
that is created gets its owner with it, and `InStep` says that one user has L4 and that the column `publisher` has the
name of that user.

The calls that move levels keep `InStep` but for one: an actor who is owner only through a global team exchanges levels
with the target, and the row of the real owner stays at L4. `TeamCall.Fair` excludes that, and names that a call
stores in the column but does not find the user by.
-/

namespace Renop.DockerTeam

open Sql
open Renop.Accounts
open Renop.SuperTeam (Text)
open Renop.Cargo (Key UserMessage)
open Renop.Docker (sanitizeDockerKey sanitizeDockerUsername)

/-! ### Calls -/

/-- The calls about the members of an image, and renaming an account. -/
inductive TeamCall
  | invite (invitations : List (DockerInvitation × UserMessage)) (newID : String → String)
  | respond (id recipient repository : String) (accept : Bool) (actedAt : Int)
  | forceAdd (repository imageName actor : String) (usernames : List String) (level now : Int)
    (newID messageID : String → String)
  | setLevel (repository imageName actor username : String) (level : Int)
  | remove (repository imageName actor : String) (usernames : List String) (now : Int) (messageID : String → String)
  | rename (oldName newName : String) (token : Token) (newID : String) (now : Int) (refused : Option AccountError)

def TeamCall.run (text : Text) (db : DB) : TeamCall → Except TeamError DB
  | invite invitations newID => createDockerInvitations text db invitations newID
  | respond id recipient repository accept actedAt => respondDockerInvitation text db id recipient repository accept actedAt
  | forceAdd repository imageName actor usernames level now newID messageID =>
    forceAddDockerMembers text db repository imageName actor usernames level now newID messageID
  | setLevel repository imageName actor username level => setDockerMemberLevel text db repository imageName actor
      username level
  | remove repository imageName actor usernames now messageID =>
    removeDockerMembers text db repository imageName actor usernames now messageID
  | rename oldName newName token newID now refused => renameToken text db oldName newName token newID now refused

/-- All calls that read or write images, members and accounts. -/
inductive DockerCall
  | team (c : TeamCall)
  | create (repository imageName owner superTeamPrefix : String) (isPrivate : Bool) (createdAt : Int)
    (enforceNamespace : Bool) (newID : String)
  /-- `createDockerImageTx`, as an approved review calls it. -/
  | createReviewed (key : Key) (owner ownerID superTeamPrefix : String) (isPrivate : Bool) (createdAt requiredTeamRole : Int)
  | put (repository imageName username : String) (now : Int) (refused : Option TeamError)
  | cache (repository imageName : String) (now : Int) (refused : Option TeamError)
  | deleteImage (repository imageName : String) (now : Int)
  | deleteRepository (repository : String) (now : Int) (locked : Bool)
  | members (repository imageName : String) (now : Int) (newID : String)
  | details (repository imageName : String) (now : Int) (newID : String)
  | saveToken (token : Token) (newID : String) (now : Int)
  | createToken (token : Token) (newID : String) (now : Int)
  | ban (username : String) (newBan : Option Ban) (now : Int)
  | deleteToken (name : String) (retire : Bool) (retiredAt now : Int) (refused : Option AccountError)

/-- A call that changes tokens and profiles only. -/
def withAccounts (db : DB) (r : Except AccountError AccountDB) : Except TeamError DB :=
  (r.mapError TeamError.account).map fun accounts => { db with toAccountDB := accounts }

def DockerCall.run (text : Text) (db : DB) : DockerCall → Except TeamError DB
  | team c => c.run text db
  | create repository imageName owner superTeamPrefix isPrivate createdAt enforceNamespace newID =>
    createDockerImage text db repository imageName owner superTeamPrefix isPrivate createdAt enforceNamespace newID
  | createReviewed key owner ownerID superTeamPrefix isPrivate createdAt requiredTeamRole =>
    createDockerImageTx db key owner ownerID superTeamPrefix isPrivate createdAt requiredTeamRole
  | put repository imageName username now refused => putDockerManifest text db repository imageName username now refused
  | cache repository imageName now refused => cacheDockerManifest text db repository imageName now refused
  | deleteImage repository imageName now => deleteDockerImage text db repository imageName now
  | deleteRepository repository now locked => deleteDockerRepository text db repository now locked
  | members repository imageName now newID => (listDockerMembers text db repository imageName now newID).map Prod.snd
  | details repository imageName now newID =>
    (getDockerImageDetailsForViewer text db repository imageName now newID).map Prod.snd
  | saveToken token newID now => withAccounts db (Accounts.saveToken text db.toAccountDB token newID now)
  | createToken token newID now => withAccounts db (Accounts.createToken text db.toAccountDB token newID now)
  | ban username newBan now => withAccounts db (setAccountBan text db.toAccountDB username newBan now)
  | deleteToken name retire retiredAt now refused => DockerTeam.deleteToken text db name retire retiredAt now refused

/-- No accounts and no images yet. -/
def DB.empty : DB := ⟨⟨.empty, .empty⟩, .empty, .empty, .empty, .empty, fun _ _ => none, fun _ _ => none⟩

/-- A call, or a change of what the calls only read: global teams, bindings, locks, tokens, messages and invitations. A
profile that a failing call made is such a change as well. -/
inductive DockerStep (text : Text) (good : DB → DockerCall → Prop) : DB → DB → Prop
  | call {db db' : DB} (c : DockerCall) (hgood : good db c) (hrun : c.run text db = .ok db') : DockerStep text good db db'
  | other {db db' : DB} (hmembers : db'.members = db.members) (hprofiles : Enrolled db db')
    (hpublisher : ∀ k, db'.publisher? k = db.publisher? k) : DockerStep text good db db'

def DockerRun (text : Text) (good : DB → DockerCall → Prop) : DB → DB → Prop :=
  Relation.ReflTransGen (DockerStep text good)

/-! ### What holds of every run -/

variable {text : Text} {db db' : DB} {key k : Key} {u : String}

/-- Only images that exist have members. -/
def Housed (db : DB) : Prop := ∀ k u, db.level? k u ≠ none → db.publisher? k ≠ none

theorem Housed.aside (h : Housed db) (ha : Aside db db') : Housed db' := by
  intro k u hu
  rw [ha.level] at hu
  rw [ha.publisher]
  exact h k u hu

theorem Housed.within (h : Housed db) (hw : Within key db db') (hk : db.publisher? key ≠ none) : Housed db' := by
  intro k u hu
  by_cases hkey : k = key
  · rw [hkey]
    exact fun hnone => hk ((hw.exists_iff key).1 hnone)
  · rw [hw.level k u hkey] at hu
    rw [hw.publisher k hkey]
    exact h k u hu

theorem TeamCall.run_frame {c : TeamCall} (h : c.run text db = .ok db') :
    (Aside db db' ∨ (∃ key, Within key db db' ∧ db.publisher? key ≠ none) ∨ ∃ oldName newName,
      Renames db db' oldName newName) := by
  cases c with
  | invite invitations newID =>
    rcases createDockerInvitations_ok h with haside | ⟨userID, hr⟩
    · exact .inl haside
    · exact .inr (.inl ⟨_, hr.within, by rw [hr.column]; nofun⟩)
  | respond id recipient repository accept actedAt =>
    rcases respondDockerInvitation_ok h with ⟨i, -, himage, -, ⟨-, haside⟩ | ⟨-, recipientID, ha⟩⟩
    · exact .inl haside
    · exact .inr (.inl ⟨_, ha.within, himage⟩)
  | forceAdd repository imageName actor usernames level now newID messageID =>
    obtain ⟨hwithin, himage, -⟩ := forceAddDockerMembers_ok h
    exact .inr (.inl ⟨_, hwithin, himage⟩)
  | setLevel repository imageName actor username level =>
    obtain ⟨-, hwithin, himage, -⟩ := setDockerMemberLevel_ok h
    exact .inr (.inl ⟨_, hwithin, himage⟩)
  | remove repository imageName actor usernames now messageID =>
    obtain ⟨hwithin, himage, -⟩ := removeDockerMembers_ok h
    exact .inr (.inl ⟨_, hwithin, himage⟩)
  | rename oldName newName token newID now refused =>
    rcases renameToken_ok h with haside | hr
    · exact .inl haside
    · exact .inr (.inr hr)

/-- A new image and its owner. -/
structure Creates (db db' : DB) (key : Key) (owner ownerID : String) : Prop where
  absent : db.publisher? key = none
  publisher : ∀ k, db'.publisher? k = if k = key then some owner else db.publisher? k
  level : ∀ k u, db'.level? k u = if k = key ∧ u = ownerID then some dockerPermissionOwner else db.level? k u
  accounts : db'.toAccountDB = db.toAccountDB
  pushEnabled : ∀ i, db'.images.find? key = some i → i.pushEnabled = true

theorem createDockerImageTx_ok {owner ownerID superTeamPrefix : String} {isPrivate : Bool} {createdAt requiredTeamRole : Int}
    (h : createDockerImageTx db key owner ownerID superTeamPrefix isPrivate createdAt requiredTeamRole = .ok db') :
    Creates db db' key owner ownerID := by
  obtain ⟨_, -, h⟩ := bind_ok.1 h
  obtain ⟨_, -, h⟩ := bind_ok.1 h
  obtain ⟨_, -, h⟩ := bind_ok.1 h
  obtain ⟨hnone, h⟩ := require_bind_ok.1 h
  obtain ⟨images, hins, h⟩ := bind_ok.1 h
  have hfind : ∀ k, images.find? k = if k = key then _ else db.images.find? k := Table.find?_insert hins
  obtain ⟨⟨members, -, rfl⟩, hlevel⟩ := insertMember_ok h
  refine ⟨by rw [DB.publisher?, hnone, Option.map_none], fun k => ?_, hlevel, rfl, fun i hi => ?_⟩
  · unfold DB.publisher?
    dsimp only
    rw [hfind]
    by_cases hk : k = key
    · rw [if_pos hk, if_pos hk, Option.map_some]
    · rw [if_neg hk, if_neg hk]
  · rw [hfind, if_pos rfl] at hi
    cases hi
    rfl

theorem createDockerImage_ok {repository imageName owner superTeamPrefix newID : String} {isPrivate : Bool} {createdAt : Int}
    {enforceNamespace : Bool} (h : createDockerImage text db repository imageName owner superTeamPrefix isPrivate createdAt
      enforceNamespace newID = .ok db') :
    ∃ db₁ ownerID, Aside db db₁ ∧
      db₁.username? ownerID = some (text.toLower (text.trimSpace (sanitizeDockerUsername text owner))) ∧
      Creates db₁ db' (sanitizeDockerKey text repository imageName) (sanitizeDockerUsername text owner) ownerID := by
  obtain ⟨_, -, h⟩ := bind_ok.1 h
  obtain ⟨_, -, h⟩ := bind_ok.1 h
  obtain ⟨-, h⟩ := require_bind_ok.1 h
  obtain ⟨⟨ownerID, db₁⟩, hensure, h⟩ := bind_ok.1 h
  obtain ⟨haside, hname⟩ := ensureProfile_ok (mapError_ok.1 hensure)
  exact ⟨db₁, ownerID, haside, hname, createDockerImageTx_ok h⟩

theorem Housed.creates {owner ownerID : String} (h : Housed db) (hc : Creates db db' key owner ownerID) : Housed db' := by
  intro k u hu
  rw [hc.publisher]
  by_cases hk : k = key
  · rw [if_pos hk]
    nofun
  · rw [if_neg hk]
    rw [hc.level, if_neg fun h => hk h.1] at hu
    exact h k u hu

theorem Enrolled.creates {owner ownerID : String} (hc : Creates db db' key owner ownerID) : Enrolled db db' :=
  .of_eq (congrArg AccountDB.profiles hc.accounts)

/-- What a manifest does to its image: a mirror may create it, without an owner. -/
structure Puts (db db' : DB) (key : Key) (username : String) (mirror : Bool) : Prop where
  accounts : db'.toAccountDB = db.toAccountDB
  members : db'.members = db.members
  elsewhere : ∀ k, k ≠ key → db'.images.find? k = db.images.find? k
  image : db.images.find? key = none ∧ mirror = true ∧
    (∃ i, db'.images.find? key = some i ∧ i.pushEnabled = false) ∨ ∃ i, db.images.find? key = some i ∧
      db'.images.find? key = some { i with publisher := if i.publisher = "" then username else i.publisher }

theorem putDockerManifestImage_ok {repository imageName username : String} {allowMirrorCreate : Bool} {now : Int}
    {refused : Option TeamError}
    (h : putDockerManifestImage text db repository imageName username allowMirrorCreate now refused = .ok db') :
    Puts db db' (sanitizeDockerKey text repository imageName) (sanitizeDockerUsername text username) allowMirrorCreate := by
  obtain ⟨-, h⟩ := require_bind_ok.1 h
  dsimp only at h
  split at h
  · rename_i hnone
    obtain ⟨hmirror, h⟩ := require_bind_ok.1 h
    obtain ⟨images, hins, h⟩ := bind_ok.1 h
    have hfind := Table.find?_insert hins
    cases refused with
    | some e => cases h
    | none =>
      cases h
      refine ⟨rfl, rfl, fun k hk => (hfind k).trans (if_neg hk),
        .inl ⟨hnone, hmirror, _, (hfind _).trans (if_pos rfl), rfl⟩⟩
  · rename_i i hi
    obtain ⟨-, h⟩ := require_bind_ok.1 h
    obtain ⟨-, h⟩ := require_bind_ok.1 h
    cases refused with
    | some e => cases h
    | none =>
      cases h
      by_cases hp : i.publisher = ""
      · simp only [if_pos hp]
        refine ⟨rfl, rfl, fun k hk => ?_, .inr ⟨i, hi, ?_⟩⟩
        · rw [DB.setPublisher, Table.find?_update]
          cases hf : db.images.find? k with
          | none => rfl
          | some j =>
            have hj := (Table.find?_eq_some.1 hf).2
            rw [Option.map_some, if_neg (hj ▸ hk)]
        · have hkey := (Table.find?_eq_some.1 hi).2
          rw [DB.setPublisher, Table.find?_update, hi, Option.map_some, if_pos hkey, hp, if_pos rfl]
      · simp only [if_neg hp]
        exact ⟨rfl, rfl, fun _ _ => rfl, .inr ⟨i, hi, by rw [hi, if_neg hp]⟩⟩

theorem Puts.exists {username : String} {mirror : Bool} (h : Puts db db' key username mirror)
    (hk : db.publisher? k ≠ none) : db'.publisher? k ≠ none := by
  unfold DB.publisher? at hk ⊢
  by_cases hkey : k = key
  · subst hkey
    rcases h.image with ⟨-, -, i, hi, -⟩ | ⟨i, -, hi⟩ <;> simp [hi]
  · rw [h.elsewhere k hkey]
    exact hk

/-- Rows go, by image or by user. -/
structure Drops (db db' : DB) (image : Key → Bool) (user : String → Bool) : Prop where
  level : ∀ k u, db'.level? k u = if image k || user u then none else db.level? k u
  find? : ∀ k, db'.images.find? k = if image k then none else db.images.find? k
  names : ∀ u name, db'.username? u = some name → db.username? u = some name

theorem level?_deleteMembers (image : Key → Bool) (user : String → Bool) :
    (db.deleteMembers fun m => image m.key || user m.userID).level? k u =
      if image k || user u then none else db.level? k u := by
  unfold DB.level? DB.deleteMembers
  rw [Roster.level?_delete, Roster.level?]
  cases hm : db.members.find? (k, u) with
  | none => simp
  | some m =>
    obtain ⟨hk, hu⟩ := Prod.mk.inj (Table.find?_eq_some.1 hm).2
    have hk' : m.key = k := hk
    have hu' : m.userID = u := hu
    rw [Option.bind_some, Option.map_some, hk', hu']

theorem find?_deleteImages (p : Key → Bool) : (db.images.delete fun i => p i.key).find? k =
    if p k then none else db.images.find? k := by
  cases hi : db.images.find? k with
  | none =>
    have hnone : (db.images.delete fun i => p i.key).find? k = none :=
      Table.find?_eq_none.2 fun i hmem => Table.find?_eq_none.1 hi i (List.mem_filter.1 hmem).1
    rw [hnone, ite_self]
  | some i =>
    obtain ⟨hmem, hkey⟩ := Table.find?_eq_some.1 hi
    by_cases hp : p k = true
    · rw [if_pos hp]
      refine Table.find?_eq_none.2 fun j hj hjk => ?_
      have hpj := (List.mem_filter.1 hj).2
      simp [hjk, hp] at hpj
    · rw [if_neg hp]
      exact Table.find?_eq_some.2 ⟨List.mem_filter.2 ⟨hmem, by simpa [hkey] using hp⟩, hkey⟩

theorem deleteDockerImage_ok {repository imageName : String} {now : Int}
    (h : deleteDockerImage text db repository imageName now = .ok db') :
    Drops db db' (fun k => k = sanitizeDockerKey text repository imageName) fun _ => false := by
  obtain ⟨_, -, h⟩ := bind_ok.1 h
  obtain ⟨_, -, h⟩ := bind_ok.1 h
  cases h
  refine ⟨fun k u => ?_, fun k => find?_deleteImages fun k => decide (k = sanitizeDockerKey text repository imageName),
    fun _ _ => id⟩
  have hdelete := @level?_deleteMembers db k u (fun k => decide (k = sanitizeDockerKey text repository imageName)) fun _ =>
    false
  simp only [Bool.or_false] at hdelete ⊢
  exact hdelete

theorem deleteDockerRepository_ok {repository : String} {now : Int} {locked : Bool}
    (h : deleteDockerRepository text db repository now locked = .ok db') :
    Drops db db' (fun k => k.1 = (sanitizeDockerKey text repository "").1) fun _ => false := by
  obtain ⟨-, h⟩ := require_bind_ok.1 h
  cases h
  refine ⟨fun k u => ?_, fun k => find?_deleteImages fun k => decide (k.1 = (sanitizeDockerKey text repository "").1),
    fun _ _ => id⟩
  have hdelete := @level?_deleteMembers db k u (fun k => decide (k.1 = (sanitizeDockerKey text repository "").1)) fun _ =>
    false
  simp only [Bool.or_false] at hdelete ⊢
  exact hdelete

theorem names_dropAccount {name : String} {retire : Bool} {retiredAt : Int} {name' : String}
    (h : DB.username? { db with toAccountDB := dropAccount db.toAccountDB name retire retiredAt } u = some name') :
    db.username? u = some name' := by
  obtain ⟨p, hmem, hid, hname⟩ := username?_some.1 h
  refine username?_some.2 ⟨p, ?_, hid, hname⟩
  unfold dropAccount at hmem
  split at hmem
  · exact hmem
  · exact (List.mem_filter.1 hmem).1

theorem deleteToken_ok {name : String} {retire : Bool} {retiredAt now : Int} {refused : Option AccountError}
    (h : deleteToken text db name retire retiredAt now refused = .ok db') :
    ∃ user, Drops db db' (fun _ => false) user := by
  obtain ⟨-, h⟩ := require_bind_ok.1 h
  split at h
  · cases h
    exact ⟨fun _ => false, fun _ _ => rfl, fun _ => rfl, fun _ _ => id⟩
  · obtain ⟨⟨profile, token⟩, -, h⟩ := bind_ok.1 h
    obtain ⟨-, h⟩ := require_bind_ok.1 h
    obtain ⟨-, h⟩ := require_bind_ok.1 h
    obtain ⟨-, h⟩ := require_bind_ok.1 h
    cases h
    refine ⟨fun u => u = profile.userID, fun k u => ?_, fun _ => rfl, fun u name' hu => names_dropAccount hu⟩
    have hdelete := @level?_deleteMembers db k u (fun _ => false) fun u => decide (u = profile.userID)
    simp only [Bool.false_or] at hdelete ⊢
    exact hdelete

theorem Drops.unique {image : Key → Bool} {user : String → Bool} (h : Drops db db' image user) (hu : NamesUnique db) :
    NamesUnique db' := fun u v name hx hy => hu u v name (h.names u name hx) (h.names v name hy)

theorem Housed.drops {image : Key → Bool} {user : String → Bool} (h : Housed db) (hd : Drops db db' image user) :
    Housed db' := by
  intro k u hu
  rw [hd.level] at hu
  rw [DB.publisher?, hd.find?]
  cases hi : image k with
  | true => simp [hi] at hu
  | false =>
    rw [if_neg Bool.false_ne_true]
    refine h k u fun hnone => hu ?_
    rw [hnone, ite_self]

theorem withAccounts_ok {r : Except AccountError AccountDB} (h : withAccounts db r = .ok db') :
    ∃ accounts, r = .ok accounts ∧ db' = { db with toAccountDB := accounts } := by
  obtain ⟨accounts, hr, rfl⟩ := map_ok.1 h
  exact ⟨accounts, mapError_ok.1 hr, rfl⟩

theorem enrolled_createToken {token : Token} {newID : String} {now : Int} {accounts : AccountDB}
    (h : Accounts.createToken text db.toAccountDB token newID now = .ok accounts) :
    Enrolled db { db with toAccountDB := accounts } := by
  obtain ⟨name, -, h⟩ := bind_ok.1 h
  obtain ⟨ban, -, h⟩ := bind_ok.1 h
  obtain ⟨-, h⟩ := require_bind_ok.1 h
  obtain ⟨tokens, -, h⟩ := bind_ok.1 h
  have hsame : Enrolled db { db with tokens := tokens } := .of_eq rfl
  have hnew : Enrolled { db with tokens := tokens } { db with toAccountDB := accounts } := enrolled_insertProfile h
  exact hsame.trans hnew

theorem setAccountBan_profiles {username : String} {ban : Option Ban} {now : Int} {accounts : AccountDB}
    (h : setAccountBan text db.toAccountDB username ban now = .ok accounts) : accounts.profiles = db.profiles := by
  obtain ⟨-, h⟩ := require_bind_ok.1 h
  obtain ⟨ban', -, h⟩ := bind_ok.1 h
  obtain ⟨⟨profile, token⟩, -, h⟩ := bind_ok.1 h
  obtain ⟨ban'', -, h⟩ := bind_ok.1 h
  exact upsertToken_profiles h

/-- What holds of the tables in every state. -/
structure Sound (db : DB) : Prop where
  housed : Housed db
  unique : NamesUnique db

theorem Sound.empty : Sound DB.empty := ⟨fun _ _ hu => absurd rfl hu, fun _ _ _ hu => nomatch hu⟩

theorem Sound.aside (h : Sound db) (ha : Aside db db') : Sound db' := ⟨h.housed.aside ha, ha.profiles.unique h.unique⟩

theorem Sound.within (h : Sound db) (hw : Within key db db') (hk : db.publisher? key ≠ none) : Sound db' :=
  ⟨h.housed.within hw hk, hw.profiles.unique h.unique⟩

theorem Sound.drops {image : Key → Bool} {user : String → Bool} (h : Sound db) (hd : Drops db db' image user) :
    Sound db' :=
  ⟨h.housed.drops hd, hd.unique h.unique⟩

theorem Sound.renames {oldName newName : String} (h : Sound db) (hr : Renames db db' oldName newName) : Sound db' := by
  refine ⟨fun k u hu => ?_, hr.unique h.unique⟩
  rw [hr.level] at hu
  have hk := h.housed k u hu
  rw [hr.publisher]
  simpa using hk

theorem Sound.puts {username : String} {mirror : Bool} (h : Sound db) (hp : Puts db db' key username mirror) : Sound db' := by
  refine ⟨fun k u hu => ?_, (Enrolled.of_eq (congrArg AccountDB.profiles hp.accounts)).unique h.unique⟩
  rw [level?_congr hp.members] at hu
  exact hp.exists (h.housed k u hu)

theorem Sound.creates {owner ownerID : String} (h : Sound db) (hc : Creates db db' key owner ownerID) : Sound db' :=
  ⟨h.housed.creates hc, (Enrolled.creates hc).unique h.unique⟩

theorem Sound.accounts {accounts : AccountDB} (h : Sound db) (he : Enrolled db { db with toAccountDB := accounts }) :
    Sound { db with toAccountDB := accounts } := ⟨h.housed, he.unique h.unique⟩

theorem Sound.run_team {c : TeamCall} (h : Sound db) (hrun : c.run text db = .ok db') : Sound db' := by
  rcases TeamCall.run_frame hrun with haside | ⟨key, hwithin, himage⟩ | ⟨oldName, newName, hr⟩
  · exact h.aside haside
  · exact h.within hwithin himage
  · exact h.renames hr

theorem Sound.run {c : DockerCall} (h : Sound db) (hrun : c.run text db = .ok db') : Sound db' := by
  cases c with
  | team c => exact h.run_team hrun
  | create repository imageName owner superTeamPrefix isPrivate createdAt enforceNamespace newID =>
    obtain ⟨db₁, ownerID, haside, -, hc⟩ := createDockerImage_ok hrun
    exact (h.aside haside).creates hc
  | createReviewed key owner ownerID superTeamPrefix isPrivate createdAt requiredTeamRole =>
    exact h.creates (createDockerImageTx_ok hrun)
  | put repository imageName username now refused => exact h.puts (putDockerManifestImage_ok hrun)
  | cache repository imageName now refused => exact h.puts (putDockerManifestImage_ok hrun)
  | deleteImage repository imageName now => exact h.drops (deleteDockerImage_ok hrun)
  | deleteRepository repository now locked => exact h.drops (deleteDockerRepository_ok hrun)
  | members repository imageName now newID =>
    obtain ⟨r, hr, rfl⟩ := map_ok.1 hrun
    rcases listDockerMembers_ok hr with haside | ⟨publisher, userID, -, hrestores⟩
    · exact h.aside haside
    · exact h.within hrestores.within (by rw [hrestores.column]; nofun)
  | details repository imageName now newID =>
    obtain ⟨r, hr, rfl⟩ := map_ok.1 hrun
    rcases getDockerImageDetailsForViewer_ok hr with haside | ⟨publisher, userID, -, hrestores⟩
    · exact h.aside haside
    · exact h.within hrestores.within (by rw [hrestores.column]; nofun)
  | saveToken token newID now =>
    obtain ⟨accounts, hr, rfl⟩ := withAccounts_ok hrun
    exact h.accounts (enrolled_saveToken hr)
  | createToken token newID now =>
    obtain ⟨accounts, hr, rfl⟩ := withAccounts_ok hrun
    exact h.accounts (enrolled_createToken hr)
  | ban username newBan now =>
    obtain ⟨accounts, hr, rfl⟩ := withAccounts_ok hrun
    exact h.accounts (.of_eq (setAccountBan_profiles hr))
  | deleteToken name retire retiredAt now refused =>
    obtain ⟨user, hd⟩ := deleteToken_ok hrun
    exact h.drops hd

theorem Sound.step {good : DB → DockerCall → Prop} (h : Sound db) (hs : DockerStep text good db db') : Sound db' := by
  cases hs with
  | call c _ hrun => exact h.run hrun
  | other hmembers hprofiles hpublisher =>
    refine ⟨fun k u hu => ?_, hprofiles.unique h.unique⟩
    rw [level?_congr hmembers] at hu
    rw [hpublisher]
    exact h.housed k u hu

theorem Sound.reach {good : DB → DockerCall → Prop} (h : Sound db) (hr : DockerRun text good db db') : Sound db' := by
  induction hr with
  | refl => exact h
  | tail _ hs ih => exact ih.step hs

/-! ### The owner and the publisher -/

/-- `u` alone has L4, and the column has the current name of `u`. -/
structure InStep (db : DB) (key : Key) (u : String) : Prop where
  owner : Roster.Owner dockerPermissionOwner (db.level? key) u
  column : db.publisher? key = db.username? u
  present : db.publisher? key ≠ none

/-- A name as profiles have it. -/
def Plain (text : Text) (name : String) : Prop := text.toLower (text.trimSpace name) = name

/-- When a call keeps owner and column in step: an actor who gives L4 away and is owner has the row of L4, and the names
that the call stores or compares are plain. -/
def TeamCall.Fair (text : Text) (key : Key) (db : DB) : TeamCall → Prop
  | invite invitations _ =>
    db.publisher? key = some (firstInvitation text invitations).2 → Plain text (firstInvitation text invitations).2
  | respond id recipient repository accept _ => accept = true →
    ∀ i, findInvitation text db id recipient repository = some i → i.key = key → i.level = dockerPermissionOwner →
      Plain text (sanitizeDockerUsername text recipient)
  | forceAdd repository imageName _ usernames level _ _ _ =>
    key = sanitizeDockerKey text repository imageName → level = dockerPermissionOwner →
      ∀ name ∈ usernames, Plain text (sanitizeDockerUsername text name)
  | setLevel repository imageName actor username level =>
    key = sanitizeDockerKey text repository imageName → level = dockerPermissionOwner →
      ∀ targetID, userIDForUsername text db.toAccountDB (sanitizeDockerUsername text username) = .ok targetID →
        db.level? key targetID ≠ some dockerPermissionOwner →
        Plain text (sanitizeDockerUsername text username) ∧
        ∀ actorID, sanitizeDockerUsername text actor ≠ "" →
          userIDForUsername text db.toAccountDB (sanitizeDockerUsername text actor) = .ok actorID →
          dockerEffectivePermission db key actorID = .ok (dockerPermissionOwner, true) →
          db.level? key actorID = some dockerPermissionOwner
  | remove .. | rename .. => True

section Step

theorem InStep.kept (h : InStep db key u) (hp : Enrolled db db') (hcolumn : db'.publisher? key = db.publisher? key)
    (howner : Roster.Owner dockerPermissionOwner (db'.level? key) u) : InStep db' key u := by
  obtain ⟨name, hname⟩ := Option.ne_none_iff_exists'.1 h.present
  have hu : db.username? u = some name := h.column.symm.trans hname
  refine ⟨howner, ?_, ?_⟩
  · rw [hcolumn, hname, hp.kept u name hu]
  · rw [hcolumn]
    exact h.present

theorem InStep.within (h : InStep db key u) (hw : Within k db db') (hne : key ≠ k) : InStep db' key u :=
  h.kept hw.profiles (hw.publisher key hne) (h.owner.congr fun v => hw.level key v hne)

theorem InStep.aside (h : InStep db key u) (ha : Aside db db') : InStep db' key u :=
  h.kept ha.profiles ha.publisher (h.owner.congr fun _ => ha.level)

theorem InStep.handOver {name : String} (h : InStep db key u) {v : String}
    (howner : Roster.Owner dockerPermissionOwner (db'.level? key) v)
    (hcolumn : db'.publisher? key = (db.publisher? key).map fun _ => name)
    (hname : db'.username? v = some name) : InStep db' key v := by
  obtain ⟨name', hname'⟩ := Option.ne_none_iff_exists'.1 h.present
  have hcolumn' : db'.publisher? key = some name := by rw [hcolumn, hname', Option.map_some]
  exact ⟨howner, hcolumn'.trans hname.symm, by rw [hcolumn']; nofun⟩

theorem owner_ne_team : some dockerPermissionTeam ≠ some dockerPermissionOwner := by decide

theorem owner_of_demoted (db : DB) {v : String} (hlevel : ∀ w, db'.level? key w = if w = v then some dockerPermissionOwner
      else if db.level? key w = some dockerPermissionOwner then some dockerPermissionTeam else db.level? key w) :
    Roster.Owner dockerPermissionOwner (db'.level? key) v := by
  refine .handOver (by rw [hlevel, if_pos rfl]) fun w hw howner => ?_
  rw [hlevel, if_neg hw] at howner
  split at howner
  · exact owner_ne_team howner
  · contradiction

theorem owner_of_added (new : String → Prop) [DecidablePred new] {level : Int}
    (ho : Roster.Owner dockerPermissionOwner (db.level? key) u)
    (hl : level ≠ dockerPermissionOwner) (habsent : ∀ w, new w → db.level? key w = none)
    (hlevel : ∀ w, db'.level? key w = if new w then some level else db.level? key w) :
    Roster.Owner dockerPermissionOwner (db'.level? key) u := by
  refine ho.kept ?_ fun w hw => ?_
  · rw [hlevel, if_neg fun hn => ?_, ho.has]
    have hnone := habsent u hn
    rw [ho.has] at hnone
    cases hnone
  · rw [hlevel] at hw
    split at hw
    · exact absurd (Option.some.inj hw) hl
    · exact hw

theorem InStep.not_restores (h : InStep db key u) (hunique : NamesUnique db') {publisher userID : String}
    (hplain : Plain text publisher) (hr : Restores text db db' key publisher userID) : False := by
  have hu : db.username? u = some publisher := h.column.symm.trans hr.column
  have hu' := hr.within.profiles.kept u publisher hu
  have hid := hr.named
  rw [hplain] at hid
  have heq := hunique u userID publisher hu' hid
  have habsent := hr.absent
  rw [← heq, h.owner.has] at habsent
  cases habsent

theorem InStep.step_respond {id recipient repository : String} {accept : Bool} {actedAt : Int} (h : InStep db key u)
    (hfair : (TeamCall.respond id recipient repository accept actedAt).Fair text key db)
    (hrun : respondDockerInvitation text db id recipient repository accept actedAt = .ok db') : ∃ v, InStep db' key v := by
  rcases respondDockerInvitation_ok hrun with ⟨i, hi, -, -, ⟨-, haside⟩ | ⟨haccept, recipientID, ha⟩⟩
  · exact ⟨u, h.aside haside⟩
  · by_cases hk : key = i.key
    · subst hk
      by_cases hl : i.level = dockerPermissionOwner
      · have howner : Roster.Owner dockerPermissionOwner (db'.level? i.key) recipientID := by
          refine owner_of_demoted db fun w => ?_
          rw [ha.level]
          simp only [hl, true_and]
        have hcolumn := ha.publisher
        rw [if_pos hl] at hcolumn
        have hname := ha.within.profiles.kept _ _ (userIDForUsernameTx_name ha.named)
        rw [hfair haccept i hi rfl hl] at hname
        exact ⟨recipientID, h.handOver howner hcolumn hname⟩
      · have hcolumn := ha.publisher
        rw [if_neg hl] at hcolumn
        refine ⟨u, h.kept ha.within.profiles hcolumn (owner_of_added (fun w => w = recipientID) h.owner hl
          (fun w hw => hw ▸ ha.absent) fun w => ?_)⟩
        rw [ha.level]
        simp only [hl, false_and, if_false]
    · exact ⟨u, h.within ha.within hk⟩

theorem InStep.step_forceAdd {repository imageName actor : String} {usernames : List String} {level now : Int}
    {newID messageID : String → String} (h : InStep db key u)
    (hfair : (TeamCall.forceAdd repository imageName actor usernames level now newID messageID).Fair text key db)
    (hrun : forceAddDockerMembers text db repository imageName actor usernames level now newID messageID = .ok db') :
    ∃ v, InStep db' key v := by
  obtain ⟨hwithin, -, users, hone, husers, hcolumn, hlevel⟩ := forceAddDockerMembers_ok hrun
  by_cases hk : key = sanitizeDockerKey text repository imageName
  · subst hk
    by_cases hl : level = dockerPermissionOwner
    · obtain ⟨user, rfl⟩ := List.length_eq_one_iff.1 (hone hl)
      obtain ⟨hname, hmem, -⟩ := husers user (by simp)
      obtain ⟨name, hmem, hname'⟩ := List.mem_map.1 hmem
      have hplain : Plain text user.1 := hname' ▸ hfair rfl hl name hmem
      rw [hplain] at hname
      rw [if_pos hl] at hcolumn
      refine ⟨user.2, h.handOver (owner_of_demoted db fun w => ?_) hcolumn hname⟩
      rw [hlevel]
      simp [hl]
    · rw [if_neg hl] at hcolumn
      refine ⟨u, h.kept hwithin.profiles hcolumn (owner_of_added (fun w => w ∈ users.map Prod.snd) h.owner hl
        (fun w hw => ?_) fun w => ?_)⟩
      · obtain ⟨user, huser, rfl⟩ := List.mem_map.1 hw
        exact (husers user huser).2.2
      · rw [hlevel]
        simp only [hl, false_and, if_false]
  · exact ⟨u, h.within hwithin hk⟩

theorem InStep.step_setLevel {repository imageName actor username : String} {level : Int} (h : InStep db key u)
    (hfair : (TeamCall.setLevel repository imageName actor username level).Fair text key db)
    (hrun : setDockerMemberLevel text db repository imageName actor username level = .ok db') : ∃ v, InStep db' key v := by
  obtain ⟨hrange, hwithin, -, targetID, current, htargetID, hcurrent, hrelevels⟩ := setDockerMemberLevel_ok hrun
  by_cases hk : key = sanitizeDockerKey text repository imageName
  swap
  · exact ⟨u, h.within hwithin hk⟩
  subst hk
  have hname := hwithin.profiles.kept _ _ (userIDForUsername_name htargetID)
  have htarget : current ≠ dockerPermissionOwner →
      db.level? (sanitizeDockerKey text repository imageName) targetID ≠ some dockerPermissionOwner := by
    intro hc
    rw [hcurrent]
    exact fun h => hc (Option.some.inj h)
  cases hrelevels with
  | exchange actorID hactor hid heffective hl hc hcolumn hlevel =>
    obtain ⟨hplain, hactorRow⟩ := hfair rfl hl targetID htargetID (htarget hc)
    rw [hplain] at hname
    -- the actor is the owner, so nobody else keeps L4
    have hrow := hactorRow actorID hactor hid heffective
    obtain rfl := h.owner.only actorID hrow
    refine ⟨targetID, h.handOver (h.owner.exchange (l := current) ?_ (fun hne => ?_) hc fun w hw hw' => ?_)
      hcolumn hname⟩
    · rw [hlevel, if_pos rfl, hl]
    · rw [hlevel, if_neg hne, if_pos rfl, hrow, Option.map_some]
    · rw [hlevel, if_neg hw', if_neg hw]
  | demote hactor hl hc hcolumn hlevel =>
    obtain ⟨hplain, -⟩ := hfair rfl hl targetID htargetID (htarget hc)
    rw [hplain] at hname
    exact ⟨targetID, h.handOver (owner_of_demoted db (hl ▸ hlevel)) hcolumn hname⟩
  | plain hsame hleft hcolumn hlevel =>
    refine ⟨u, h.kept hwithin.profiles hcolumn (h.owner.kept ?_ fun w hw => ?_)⟩
    · rw [hlevel]
      split
      · rename_i hu
        subst hu
        -- the only owner is not demoted
        have hc : current = dockerPermissionOwner := Option.some.inj (hcurrent.symm.trans h.owner.has)
        by_cases hlt : level < dockerPermissionOwner
        · obtain ⟨v, hne, hv⟩ := hleft hc hlt
          exact absurd (h.owner.only v hv) hne
        · rw [show level = dockerPermissionOwner by omega]
      · exact h.owner.has
    · rw [hlevel] at hw
      split at hw
      · rename_i hu
        rw [hu, hcurrent, hsame (Option.some.inj hw)]
      · exact hw

theorem InStep.step_remove {repository imageName actor : String} {usernames : List String} {now : Int}
    {messageID : String → String} (h : InStep db key u)
    (hrun : removeDockerMembers text db repository imageName actor usernames now messageID = .ok db') : InStep db' key u := by
  obtain ⟨hwithin, -, hcolumn, ids, howners, hlevel⟩ := removeDockerMembers_ok hrun
  by_cases hk : key = sanitizeDockerKey text repository imageName
  · subst hk
    have hcount : db.members.rows.countP (fun m => m.key = sanitizeDockerKey text repository imageName &&
        m.permissionLevel = dockerPermissionOwner) = 1 := h.owner.count
    have hnone : ∀ v ∈ ids, db.level? (sanitizeDockerKey text repository imageName) v ≠ some dockerPermissionOwner := by
      rcases howners with hnone | hlt
      · exact hnone
      · omega
    refine h.kept hwithin.profiles hcolumn (h.owner.kept ?_ fun w hw => ?_)
    · rw [hlevel, if_neg fun hu => hnone u hu h.owner.has, h.owner.has]
    · rw [hlevel] at hw
      split at hw
      · cases hw
      · exact hw
  · exact h.within hwithin hk

theorem InStep.renames {oldName newName : String} (h : InStep db key u) (hr : Renames db db' oldName newName) :
    InStep db' key u := by
  refine ⟨h.owner.congr fun v => hr.level key v, ?_, ?_⟩
  · rw [hr.publisher, hr.name, h.column]
  · have hpresent := h.present
    rw [hr.publisher]
    simpa using hpresent

theorem InStep.step {c : TeamCall} (h : InStep db key u) (hs : Sound db) (hfair : c.Fair text key db)
    (hrun : c.run text db = .ok db') : ∃ v, InStep db' key v := by
  cases c with
  | invite invitations newID =>
    rcases createDockerInvitations_ok hrun with haside | ⟨userID, hr⟩
    · exact ⟨u, h.aside haside⟩
    · by_cases hk : key = (firstInvitation text invitations).1
      · subst hk
        exact (h.not_restores (hr.within.profiles.unique hs.unique) (hfair hr.column) hr).elim
      · exact ⟨u, h.within hr.within hk⟩
  | respond id recipient repository accept actedAt => exact h.step_respond hfair hrun
  | forceAdd repository imageName actor usernames level now newID messageID => exact h.step_forceAdd hfair hrun
  | setLevel repository imageName actor username level => exact h.step_setLevel hfair hrun
  | remove repository imageName actor usernames now messageID => exact ⟨u, h.step_remove hrun⟩
  | rename oldName newName token newID now refused =>
    rcases renameToken_ok hrun with haside | ⟨oldName', newName', hr⟩
    · exact ⟨u, h.aside haside⟩
    · exact ⟨u, h.renames hr⟩

end Step

/-- A run of the calls about members, each of them fair to the image. -/
def FairRun (text : Text) (key : Key) : DB → DB → Prop :=
  DockerRun text fun db c => ∃ t, c = .team t ∧ t.Fair text key db

theorem InStep.run (h : InStep db key u) (hs : Sound db) (hr : FairRun text key db db') :
    ∃ v, InStep db' key v := by
  induction hr with
  | refl => exact ⟨u, h⟩
  | tail hr hstep ih =>
    obtain ⟨v, hv⟩ := ih
    have hsound := hs.reach hr
    cases hstep with
    | call c hgood hrun =>
      obtain ⟨t, rfl, hfair⟩ := hgood
      exact hv.step hsound hfair hrun
    | other hmembers hprofiles hpublisher =>
      exact ⟨v, hv.kept hprofiles (hpublisher key) (hv.owner.congr fun w => level?_congr hmembers)⟩

theorem InStep.created {owner ownerID : String} (hs : Sound db) (hname : db.username? ownerID = some owner)
    (hc : Creates db db' key owner ownerID) : InStep db' key ownerID := by
  have hcolumn : db'.publisher? key = some owner := (hc.publisher key).trans (if_pos rfl)
  refine ⟨.handOver ((hc.level key ownerID).trans (if_pos ⟨rfl, rfl⟩)) fun v hv howner => ?_,
    ?_, by rw [hcolumn]; nofun⟩
  · rw [hc.level, if_neg fun h => hv h.2] at howner
    exact hs.housed key v (by rw [howner]; nofun) hc.absent
  · rw [hcolumn, DB.username?, hc.accounts]
    exact hname.symm

/-- An image that is created under the current name of its owner has one L4 row in every state of a fair run, whatever
happened before, and the column `publisher` is the current name of that member. -/
theorem owner_in_step (text : Text) (db₁ db₂ db₃ : DB) (key : Key) (owner ownerID superTeamPrefix : String)
    (isPrivate : Bool) (createdAt requiredTeamRole : Int) (hbefore : DockerRun text (fun _ _ => True) DB.empty db₁)
    (hcreate : createDockerImageTx db₁ key owner ownerID superTeamPrefix isPrivate createdAt requiredTeamRole = .ok db₂)
    (hname : db₁.username? ownerID = some owner) (hafter : FairRun text key db₂ db₃) :
    db₃.members.rows.countP (fun m => m.key = key && m.permissionLevel = dockerPermissionOwner) = 1 ∧
      ∃ m ∈ db₃.members.rows, m.key = key ∧ m.permissionLevel = dockerPermissionOwner ∧
        ∃ image, db₃.images.find? key = some image ∧ db₃.username? m.userID = some image.publisher := by
  have hsound : Sound db₁ := Sound.empty.reach hbefore
  have hc := createDockerImageTx_ok hcreate
  obtain ⟨u, hu⟩ := (InStep.created hsound hname hc).run (hsound.creates hc) hafter
  have hcount : db₃.members.rows.countP (fun m => m.key = key && m.permissionLevel = dockerPermissionOwner) = 1 :=
    hu.owner.count
  obtain ⟨m, hmem, hk, hid, hl⟩ := Roster.level?_eq_some.1 hu.owner.has
  obtain ⟨publisher, hpublisher⟩ := Option.ne_none_iff_exists'.1 hu.present
  obtain ⟨image, himage, rfl⟩ := Option.map_eq_some_iff.1 hpublisher
  refine ⟨hcount, m, hmem, hk, hl, image, himage, ?_⟩
  have hid' : m.userID = u := hid
  rw [hid', ← hu.column, hpublisher]

/-! The image `core/app` of alice is bound to a global team that bob owns. Alice gives it to carol, or bob does. -/

def core : DB :=
  { DB.empty with
    profiles := ⟨[⟨"1", "alice"⟩, ⟨"2", "bob"⟩, ⟨"3", "carol"⟩], by decide⟩
    superTeamRole := fun team userID => if team = "core" then [("1", 3), ("2", 4)].lookup userID else none }

def app : Key := ("containers", "core/app")

def created : DB := (createDockerImageTx core app "alice" "1" "core" false 1 3).toOption.getD core

def addCarol : TeamCall := .forceAdd "containers" "core/app" "" ["carol"] 0 2 id id

def joined : DB := (addCarol.run SuperTeam.plainText created).toOption.getD created

def giveToCarol (actor : String) : TeamCall := .setLevel "containers" "core/app" actor "carol" 4

def given (actor : String) : DB := ((giveToCarol actor).run SuperTeam.plainText joined).toOption.getD joined

theorem core_run : DockerRun text (fun _ _ => True) DB.empty core := by
  refine .single (.other rfl ⟨fun u name hu => ?_, fun _ => ?_⟩ fun _ => rfl)
  · obtain ⟨p, hp, -⟩ := username?_some.1 hu
    cases hp
  · intro u v name hu hv
    obtain ⟨p, hp, hpid, hpname⟩ := username?_some.1 hu
    obtain ⟨q, hq, hqid, hqname⟩ := username?_some.1 hv
    have hnames : ∀ p ∈ core.profiles.rows, ∀ q ∈ core.profiles.rows, p.username = q.username →
        p.userID = q.userID := by
      decide
    rw [← hpid, ← hqid]
    exact hnames p hp q hq (hpname.trans hqname.symm)

theorem created_ok : createDockerImageTx core app "alice" "1" "core" false 1 3 = .ok created := ok_getD (by decide)

theorem joined_ok : addCarol.run SuperTeam.plainText created = .ok joined := ok_getD (by decide)

theorem owner_in_step_given :
    (given "alice").members.rows.countP (fun m => m.key = app && m.permissionLevel = dockerPermissionOwner) = 1 ∧
      ∃ m ∈ (given "alice").members.rows, m.key = app ∧ m.permissionLevel = dockerPermissionOwner ∧
        ∃ image, (given "alice").images.find? app = some image ∧
          (given "alice").username? m.userID = some image.publisher := by
  have hgiven : (giveToCarol "alice").run SuperTeam.plainText joined = .ok (given "alice") := ok_getD (by decide)
  refine owner_in_step SuperTeam.plainText core created (given "alice") app "alice" "1" "core" false 1 3 core_run created_ok
    (by decide) (.tail (.single (.call (.team addCarol) ⟨_, rfl, ?_⟩ joined_ok))
      (.call (.team (giveToCarol "alice")) ⟨_, rfl, ?_⟩ hgiven))
  · exact fun _ hl => absurd hl (by decide)
  · refine fun _ _ targetID _ _ => ⟨rfl, fun actorID _ hid _ => ?_⟩
    have hone : userIDForUsername SuperTeam.plainText joined.toAccountDB
      (sanitizeDockerUsername SuperTeam.plainText "alice") = .ok "1" := by decide
    obtain rfl : "1" = actorID := Except.ok.inj (hone.symm.trans hid)
    decide

theorem not_owner_in_step : ¬ ∀ (text : Text) (db₁ db₂ db₃ : DB) (key : Key) (owner ownerID superTeamPrefix : String)
    (isPrivate : Bool) (createdAt requiredTeamRole : Int), DockerRun text (fun _ _ => True) DB.empty db₁ →
    createDockerImageTx db₁ key owner ownerID superTeamPrefix isPrivate createdAt requiredTeamRole = .ok db₂ →
    db₁.username? ownerID = some owner → DockerRun text (fun _ c => ∃ t, c = .team t) db₂ db₃ →
    db₃.members.rows.countP (fun m => m.key = key && m.permissionLevel = dockerPermissionOwner) = 1 ∧
      ∃ m ∈ db₃.members.rows, m.key = key ∧ m.permissionLevel = dockerPermissionOwner ∧
        ∃ image, db₃.images.find? key = some image ∧ db₃.username? m.userID = some image.publisher := by
  intro h
  have hgiven : (giveToCarol "bob").run SuperTeam.plainText joined = .ok (given "bob") := ok_getD (by decide)
  obtain ⟨hone, -⟩ := h SuperTeam.plainText core created (given "bob") app "alice" "1" "core" false 1 3 core_run
    created_ok (by decide) (.tail (.single (.call (.team addCarol) ⟨_, rfl⟩ joined_ok))
      (.call (.team (giveToCarol "bob")) ⟨_, rfl⟩ hgiven))
  have htwo : (given "bob").members.rows.countP (fun m => m.key = app && m.permissionLevel = dockerPermissionOwner) = 2 := by
    decide
  omega

end Renop.DockerTeam
