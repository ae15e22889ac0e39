import Renop.DockerTeam

/-!
# What the calls do to the members of an image

`level?` is the level of a user's own row and `publisher?` the column of the image. A call changes them for one image
only (`Within`), and adding a profile, a message or an invitation changes neither (`Aside`). The calls that move
levels are described once each: accepting an invitation, adding, changing a level, removing and renaming.
-/

namespace Renop.DockerTeam

open Sql
open Renop.Accounts
open Renop.SuperTeam (Text)
open Renop.Cargo (Key Profile UserMessage sanitized maxTokenNameLen)
open Renop.Docker (sanitizeDockerKey sanitizeDockerUsername)

/-- The column `publisher` of an image that exists. -/
def DB.publisher? (db : DB) (key : Key) : Option String := (db.images.find? key).map (·.publisher)

/-- The current name of a user. -/
def DB.username? (db : DB) (userID : String) : Option String := (db.profiles.find? userID).map (·.username)

variable {text : Text} {db db' : DB} {key k : Key} {u : String}

/-! ### Statements -/

theorem level?_congr (h : db'.members = db.members) : db'.level? k u = db.level? k u := by
  rw [DB.level?, h, DB.level?]

theorem publisher?_congr (h : db'.images = db.images) : db'.publisher? k = db.publisher? k := by
  rw [DB.publisher?, h, DB.publisher?]

theorem insertMember_ok {m : DockerMember} (h : db.insertMember m = .ok db') :
    (∃ members, db.members.insert m TeamError.database = .ok members ∧ db' = { db with members := members }) ∧
      ∀ k u, db'.level? k u = if k = m.key ∧ u = m.userID then some m.permissionLevel else db.level? k u := by
  obtain ⟨-, h⟩ := require_bind_ok.1 h
  obtain ⟨members, hins, h⟩ := bind_ok.1 h
  cases h
  exact ⟨⟨members, hins, rfl⟩, fun k u => Roster.level?_insert hins⟩

theorem publisher?_insertMember {m : DockerMember} (h : db.insertMember m = .ok db') :
    db'.publisher? k = db.publisher? k := by
  obtain ⟨⟨members, -, rfl⟩, -⟩ := insertMember_ok h
  rfl

@[simp] theorem level?_setPublisher (publisher : String) : (db.setPublisher key publisher).level? k u = db.level? k u := rfl

@[simp] theorem publisher?_setPublisher (publisher : String) :
    (db.setPublisher key publisher).publisher? k =
      if k = key then (db.publisher? k).map fun _ => publisher else db.publisher? k := by
  unfold DB.publisher? DB.setPublisher
  rw [Table.find?_update, Option.map_map]
  cases hi : db.images.find? k with
  | none => simp
  | some i =>
    have hkey := (Table.find?_eq_some.1 hi).2
    simp only [Option.map_some, Function.comp, hkey]
    split <;> rfl

@[simp] theorem publisher?_setLevels (p : DockerMember → Bool) (level : Int) :
    (db.setLevels p level).publisher? k = db.publisher? k := rfl

@[simp] theorem publisher?_demoteOwners (p : String → Bool) : (db.demoteOwners key p).publisher? k = db.publisher? k := rfl

theorem level?_demoteOwners (p : String → Bool) :
    (db.demoteOwners key p).level? k u =
      if k = key ∧ p u = true ∧ db.level? k u = some dockerPermissionOwner then some dockerPermissionTeam
      else db.level? k u :=
  Roster.level?_demote p dockerPermissionOwner dockerPermissionTeam

theorem level?_setLevel (userID : String) (level : Int) :
    (db.setLevels (fun m => m.key = key && m.userID = userID) level).level? k u =
      if k = key ∧ u = userID then (db.level? k u).map fun _ => level else db.level? k u :=
  Roster.level?_setLevel userID level

theorem level?_deleteMember (userID : String) :
    (db.deleteMembers fun m => m.key = key && m.userID = userID).level? k u =
      if k = key ∧ u = userID then none else db.level? k u :=
  Roster.level?_deleteUser userID

/-! ### Frames -/

/-- No two users have one name. -/
def NamesUnique (db : DB) : Prop := ∀ u v name, db.username? u = some name → db.username? v = some name → u = v

/-- Users keep their names; new users have names of their own. -/
structure Enrolled (db db' : DB) : Prop where
  kept : ∀ u name, db.username? u = some name → db'.username? u = some name
  unique : NamesUnique db → NamesUnique db'

theorem Enrolled.of_eq (h : db'.profiles = db.profiles) : Enrolled db db' := by
  have hname : ∀ u, db'.username? u = db.username? u := fun u => by rw [DB.username?, h, DB.username?]
  refine ⟨fun u name hu => (hname u).trans hu, fun hunique u v name hu hv => hunique u v name ?_ ?_⟩
  · exact (hname u).symm.trans hu
  · exact (hname v).symm.trans hv

theorem Enrolled.trans {db'' : DB} (h : Enrolled db db') (h' : Enrolled db' db'') : Enrolled db db'' :=
  ⟨fun u name hu => h'.kept u name (h.kept u name hu), fun hunique => h'.unique (h.unique hunique)⟩

/-- Images and members are as before; profiles may have come. -/
structure Aside (db db' : DB) : Prop where
  images : db'.images = db.images
  members : db'.members = db.members
  profiles : Enrolled db db'

theorem Aside.refl (db : DB) : Aside db db := ⟨rfl, rfl, .of_eq rfl⟩

theorem Aside.trans {db'' : DB} (h : Aside db db') (h' : Aside db' db'') : Aside db db'' :=
  ⟨h'.images.trans h.images, h'.members.trans h.members, h.profiles.trans h'.profiles⟩

theorem Aside.level (h : Aside db db') : db'.level? k u = db.level? k u := level?_congr h.members

theorem Aside.publisher (h : Aside db db') : db'.publisher? k = db.publisher? k := publisher?_congr h.images

/-- Only one image changes, and it still exists or still does not. -/
structure Within (key : Key) (db db' : DB) : Prop where
  publisher : ∀ k, k ≠ key → db'.publisher? k = db.publisher? k
  exists_iff : ∀ k, db'.publisher? k = none ↔ db.publisher? k = none
  level : ∀ k u, k ≠ key → db'.level? k u = db.level? k u
  profiles : Enrolled db db'

theorem Aside.within (h : Aside db db') (key : Key) : Within key db db' where
  publisher _ _ := h.publisher
  exists_iff k := by rw [h.publisher]
  level _ _ _ := h.level
  profiles := h.profiles

theorem Within.trans {db'' : DB} (h : Within key db db') (h' : Within key db' db'') : Within key db db'' where
  publisher k hk := (h'.publisher k hk).trans (h.publisher k hk)
  exists_iff k := (h'.exists_iff k).trans (h.exists_iff k)
  level k u hk := (h'.level k u hk).trans (h.level k u hk)
  profiles := h.profiles.trans h'.profiles

theorem within_insertMember {m : DockerMember} (h : db.insertMember m = .ok db') : Within m.key db db' := by
  have hpublisher := fun k => publisher?_insertMember (k := k) h
  obtain ⟨⟨members, -, hdb⟩, hlevel⟩ := insertMember_ok h
  refine ⟨fun k _ => hpublisher k, fun k => by rw [hpublisher], fun k u hne => ?_, .of_eq (hdb ▸ rfl)⟩
  rw [hlevel, if_neg fun h => hne h.1]

theorem within_setPublisher (publisher : String) : Within key db (db.setPublisher key publisher) := by
  refine ⟨fun k hk => ?_, fun k => ?_, fun _ _ _ => rfl, .of_eq rfl⟩
  · rw [publisher?_setPublisher, if_neg hk]
  · rw [publisher?_setPublisher]
    split <;> simp

theorem within_setLevel (userID : String) (level : Int) :
    Within key db (db.setLevels (fun m => m.key = key && m.userID = userID) level) := by
  refine ⟨fun _ _ => rfl, fun _ => .rfl, fun k u hk => ?_, .of_eq rfl⟩
  rw [level?_setLevel, if_neg fun h => hk h.1]

theorem within_demoteOwners (p : String → Bool) : Within key db (db.demoteOwners key p) := by
  refine ⟨fun _ _ => rfl, fun _ => .rfl, fun k u hk => ?_, .of_eq rfl⟩
  rw [level?_demoteOwners, if_neg fun h => hk h.1]

theorem within_deleteMember (userID : String) :
    Within key db (db.deleteMembers fun m => m.key = key && m.userID = userID) := by
  refine ⟨fun _ _ => rfl, fun _ => .rfl, fun k u hk => ?_, .of_eq rfl⟩
  rw [level?_deleteMember, if_neg fun h => hk h.1]

theorem aside_insertMessage {m : UserMessage} (h : db.insertMessage m = .ok db') : Aside db db' := by
  obtain ⟨-, h⟩ := require_bind_ok.1 h
  obtain ⟨messages, -, h⟩ := bind_ok.1 h
  cases h
  exact ⟨rfl, rfl, .of_eq rfl⟩

theorem aside_insertInvitation {i : DockerInvitation} (h : db.insertInvitation i = .ok db') : Aside db db' := by
  obtain ⟨-, h⟩ := require_bind_ok.1 h
  obtain ⟨invitations, -, h⟩ := bind_ok.1 h
  cases h
  exact ⟨rfl, rfl, .of_eq rfl⟩

theorem aside_cancelDockerInvitations (p : DockerInvitation → Bool) (actedAt : Int) :
    Aside db (cancelDockerInvitations db p actedAt) := ⟨rfl, rfl, .of_eq rfl⟩

theorem aside_insertAcceptedMembershipMessage {id recipient sender actionKind title body payload : String} {now : Int}
    (h : insertAcceptedMembershipMessage text db id recipient sender actionKind title body payload now = .ok db') :
    Aside db db' := by
  unfold insertAcceptedMembershipMessage at h
  split at h
  · cases h
    exact .refl _
  · exact aside_insertMessage h

theorem aside_insertTeamRemovalMessage {id recipient format : String} {now : Int}
    (h : insertTeamRemovalMessage text db id recipient format key now = .ok db') : Aside db db' := by
  unfold insertTeamRemovalMessage at h
  split at h
  · cases h
    exact .refl _
  · exact aside_insertMessage h

/-! ### Names and ids -/

theorem profileByName_some {accounts : AccountDB} {name : String} {p : Profile} (h : profileByName accounts name = some p) :
    accounts.profiles.find? p.userID = some p ∧ p.username = name := by
  have hname := List.find?_some h
  simp only [decide_eq_true_eq] at hname
  exact ⟨Table.find?_eq_some.2 ⟨List.mem_of_find?_eq_some h, rfl⟩, hname⟩

theorem userIDForUsername_name {username userID : String} (h : userIDForUsername text db.toAccountDB username = .ok userID) :
    db.username? userID = some (text.toLower (text.trimSpace username)) := by
  obtain ⟨-, h⟩ := require_bind_ok.1 h
  obtain ⟨p, hp, h⟩ := bind_ok.1 h
  obtain ⟨-, h⟩ := require_bind_ok.1 h
  cases h
  obtain ⟨hfind, hname⟩ := profileByName_some (orError_ok.1 hp)
  rw [DB.username?, hfind, Option.map_some, hname]

theorem userIDForUsernameTx_name {username userID : String}
    (h : userIDForUsernameTx text db.toAccountDB username = .ok userID) :
    db.username? userID = some (text.toLower (text.trimSpace username)) := by
  obtain ⟨p, hp, h⟩ := bind_ok.1 h
  obtain ⟨-, h⟩ := require_bind_ok.1 h
  cases h
  obtain ⟨hfind, hname⟩ := profileByName_some (orError_ok.1 hp)
  rw [DB.username?, hfind, Option.map_some, hname]

theorem username?_insertProfile {accounts : AccountDB} {profile : Profile}
    (h : insertProfile db.toAccountDB profile = .ok accounts) :
    DB.username? { db with toAccountDB := accounts } u =
      if u = profile.userID then some profile.username else db.username? u := by
  obtain ⟨-, hid, hrows, -⟩ := insertProfile_ok h
  unfold DB.username? Table.find?
  rw [hrows, List.find?_append]
  split
  · rename_i hu
    have hnone : db.profiles.rows.find? (fun p => p.userID = u) = none :=
      List.find?_eq_none.2 fun p hp => by simpa [hu] using hid p hp
    rw [hnone]
    simp [hu]
  · rename_i hu
    simp [Ne.symm hu]

theorem username?_some {name : String} : db.username? u = some name ↔
    ∃ p ∈ db.profiles.rows, p.userID = u ∧ p.username = name := by
  constructor
  · intro h
    obtain ⟨p, hp, hname⟩ := Option.map_eq_some_iff.1 h
    obtain ⟨hmem, hid⟩ := Table.find?_eq_some.1 hp
    exact ⟨p, hmem, hid, hname⟩
  · rintro ⟨p, hmem, rfl, rfl⟩
    have hp : db.profiles.find? p.userID = some p := Table.find?_eq_some.2 ⟨hmem, rfl⟩
    rw [DB.username?, hp, Option.map_some]

theorem profileByName_none {name : String} (h : profileByName db.toAccountDB name = none) : db.username? u ≠ some name := by
  intro hu
  obtain ⟨p, hmem, -, hname⟩ := username?_some.1 hu
  have hne := List.find?_eq_none.1 h p hmem
  simp [hname] at hne

theorem enrolled_insertProfile {accounts : AccountDB} {profile : Profile}
    (h : insertProfile db.toAccountDB profile = .ok accounts) : Enrolled db { db with toAccountDB := accounts } := by
  have hname := fun u => username?_insertProfile (u := u) h
  obtain ⟨hnew, hid, -, -⟩ := insertProfile_ok h
  have hfresh : ∀ name, db.username? profile.userID ≠ some name := by
    intro name hu
    obtain ⟨p, hmem, hkey, -⟩ := username?_some.1 hu
    exact hid p hmem hkey
  refine ⟨fun u name hu => ?_, fun hunique u v name hu hv => ?_⟩
  · have hne : u ≠ profile.userID := by
      rintro rfl
      exact hfresh name hu
    rw [hname, if_neg hne, hu]
  · rw [hname] at hu hv
    by_cases hu' : u = profile.userID
    · rw [if_pos hu'] at hu
      by_cases hv' : v = profile.userID
      · rw [hu', hv']
      · rw [if_neg hv', ← hu] at hv
        exact absurd hv (profileByName_none hnew)
    · rw [if_neg hu'] at hu
      by_cases hv' : v = profile.userID
      · rw [if_pos hv'] at hv
        rw [← hv] at hu
        exact absurd hu (profileByName_none hnew)
      · rw [if_neg hv'] at hv
        exact hunique u v name hu hv

theorem ensureProfile_ok {username newID userID : String} (h : ensureProfile text db username newID = .ok (userID, db')) :
    Aside db db' ∧ db'.username? userID = some (text.toLower (text.trimSpace username)) := by
  obtain ⟨⟨id, accounts⟩, hensure, hr⟩ := bind_ok.1 h
  cases hr
  obtain ⟨-, hensure⟩ := require_bind_ok.1 hensure
  split at hensure
  · rename_i id' hid
    cases hensure
    exact ⟨.refl db, userIDForUsername_name hid⟩
  · obtain ⟨accounts', hins, hensure⟩ := bind_ok.1 hensure
    cases hensure
    refine ⟨⟨rfl, rfl, enrolled_insertProfile hins⟩, ?_⟩
    rw [username?_insertProfile hins, if_pos rfl]

theorem aside_ensureProfiles {newID : String → String} {names : List String} {ids : List (String × String)}
    (h : ensureProfiles text newID db names = .ok (ids, db')) : Aside db db' := by
  induction names generalizing db ids with
  | nil => cases h; exact .refl _
  | cons name names ih =>
    obtain ⟨⟨userID, db₁⟩, h₁, h⟩ := bind_ok.1 h
    obtain ⟨⟨ids', db₂⟩, h₂, h⟩ := bind_ok.1 h
    cases h
    exact (ensureProfile_ok h₁).1.trans (ih h₂)

theorem resolveMembers_ok {newID : String → String} {names : List String} (names₀ : List String)
    {seen users : List (String × String)} (h : resolveMembers text newID db names seen = .ok (users, db'))
    (hseen : ∀ user ∈ seen, db.username? user.2 = some (text.toLower (text.trimSpace user.1)) ∧
      user.1 ∈ names₀.map (sanitizeDockerUsername text)) (hnames : ∀ n ∈ names, n ∈ names₀) :
    Aside db db' ∧ ∀ user ∈ users, db'.username? user.2 = some (text.toLower (text.trimSpace user.1)) ∧
      user.1 ∈ names₀.map (sanitizeDockerUsername text) := by
  induction names generalizing db seen with
  | nil =>
    cases h
    exact ⟨.refl _, hseen⟩
  | cons name names ih =>
    obtain ⟨-, h⟩ := require_bind_ok.1 h
    have hrest : ∀ n ∈ names, n ∈ names₀ := fun n hn => hnames n (List.mem_cons_of_mem _ hn)
    split at h
    · exact ih h hseen hrest
    · obtain ⟨⟨userID, db₁⟩, h₁, h⟩ := bind_ok.1 h
      obtain ⟨haside, hname⟩ := ensureProfile_ok (mapError_ok.1 h₁)
      obtain ⟨haside', hresult⟩ := ih h (fun user huser => by
        rcases List.mem_append.1 huser with huser | huser
        · obtain ⟨hu, hmem⟩ := hseen user huser
          exact ⟨haside.profiles.kept _ _ hu, hmem⟩
        · obtain rfl := List.mem_singleton.1 huser
          exact ⟨hname, List.mem_map.2 ⟨name, hnames name (by simp), rfl⟩⟩) hrest
      exact ⟨haside.trans haside', hresult⟩

/-! ### The calls -/

/-- What an acceptance found and did: the inviter may give the level, and the recipient, who had no row, gets it. -/
structure Accepts (text : Text) (db db' : DB) (i : DockerInvitation) (recipient recipientID : String) : Prop where
  named : userIDForUsernameTx text db.toAccountDB recipient = .ok recipientID
  inviter : ∃ inviterID permission, userIDForUsernameTx text db.toAccountDB i.inviter = .ok inviterID ∧
    dockerEffectivePermission db i.key inviterID = .ok permission ∧ permission.2 = true ∧
      dockerPermissionTeam ≤ permission.1 ∧
    (i.level = dockerPermissionOwner → dockerPermissionOwner ≤ permission.1)
  absent : db.level? i.key recipientID = none
  within : Within i.key db db'
  publisher : db'.publisher? i.key =
    if i.level = dockerPermissionOwner then (db.publisher? i.key).map fun _ => recipient else db.publisher? i.key
  level : ∀ u, db'.level? i.key u =
    if u = recipientID then some i.level
    else if i.level = dockerPermissionOwner ∧ db.level? i.key u = some dockerPermissionOwner then some dockerPermissionTeam
    else db.level? i.key u

theorem acceptDockerInvitation_ok {i : DockerInvitation} {recipient : String} {actedAt : Int}
    (h : acceptDockerInvitation text db i recipient actedAt = .ok db') :
    ∃ recipientID, Accepts text db db' i recipient recipientID := by
  obtain ⟨inviterID, hinviter, h⟩ := bind_ok.1 h
  obtain ⟨recipientID, hrecipient, h⟩ := bind_ok.1 h
  obtain ⟨_, -, h⟩ := bind_ok.1 h
  obtain ⟨permission, hpermission, h⟩ := bind_ok.1 h
  obtain ⟨⟨hmember, hteam⟩, h⟩ := require_bind_ok.1 h
  obtain ⟨howner, h⟩ := require_bind_ok.1 h
  obtain ⟨habsent, h⟩ := require_bind_ok.1 h
  have howner' : i.level = dockerPermissionOwner → dockerPermissionOwner ≤ permission.1 :=
    fun hl => howner.resolve_left fun hne => hne hl
  have hpublisher := publisher?_insertMember (k := i.key) h
  have hinsert : Within i.key _ _ := within_insertMember h
  obtain ⟨-, hlevel⟩ := insertMember_ok h
  by_cases hl : i.level = dockerPermissionOwner
  · simp only [if_pos hl] at hpublisher hinsert hlevel
    have hwithin := ((within_demoteOwners fun u => decide (u ≠ recipientID)).trans (within_setPublisher recipient)).trans
      hinsert
    refine ⟨recipientID, mapError_ok.1 hrecipient, ⟨inviterID, permission, mapError_ok.1 hinviter, hpermission, hmember,
      hteam, howner'⟩, habsent, hwithin, ?_, fun u => ?_⟩
    · rw [hpublisher, publisher?_setPublisher, if_pos rfl, if_pos hl, publisher?_demoteOwners]
    · rw [hlevel, level?_setPublisher, level?_demoteOwners]
      by_cases hu : u = recipientID
      · rw [if_pos ⟨rfl, hu⟩, if_pos hu]
      · rw [if_neg fun h => hu h.2, if_neg hu]
        simp [hu, hl]
  · simp only [if_neg hl] at hpublisher hinsert hlevel
    refine ⟨recipientID, mapError_ok.1 hrecipient, ⟨inviterID, permission, mapError_ok.1 hinviter, hpermission, hmember,
      hteam, howner'⟩, habsent, hinsert, ?_, fun u => ?_⟩
    · rw [hpublisher, if_neg hl]
    · rw [hlevel]
      by_cases hu : u = recipientID
      · rw [if_pos ⟨rfl, hu⟩, if_pos hu]
      · rw [if_neg fun h => hu h.2, if_neg hu, if_neg fun h => hl h.1]

theorem respondDockerInvitation_ok {id recipient repository : String} {accept : Bool} {actedAt : Int}
    (h : respondDockerInvitation text db id recipient repository accept actedAt = .ok db') :
    ∃ i, findInvitation text db id recipient repository = some i ∧ db.publisher? i.key ≠ none ∧
      (∃ m ∈ db.messages.rows, answerable (sanitized text.toText id 64) (sanitizeDockerUsername text recipient) actedAt
        m = true) ∧ (accept = false ∧ Aside db db' ∨
        accept = true ∧ ∃ recipientID, Accepts text db db' i (sanitizeDockerUsername text recipient) recipientID) := by
  obtain ⟨i, hi, h⟩ := bind_ok.1 h
  obtain ⟨_, hlock, h⟩ := bind_ok.1 h
  obtain ⟨_, hrow, -⟩ := bind_ok.1 hlock
  obtain ⟨db₁, haccept, h⟩ := bind_ok.1 h
  obtain ⟨hone, h⟩ := require_bind_ok.1 h
  cases h
  have himage : db.publisher? i.key ≠ none := by
    have hfound := require_ok.1 hrow
    simpa [DB.publisher?] using hfound
  have hmessage : ∃ m ∈ db₁.messages.rows,
      answerable (sanitized text.toText id 64) (sanitizeDockerUsername text recipient) actedAt m = true :=
    List.countP_pos_iff.1 (by omega)
  cases accept with
  | false =>
    cases haccept
    exact ⟨i, orError_ok.1 hi, himage, hmessage, .inl ⟨rfl, rfl, rfl, .of_eq rfl⟩⟩
  | true =>
    obtain ⟨recipientID, ha⟩ := acceptDockerInvitation_ok haccept
    have hmessages : db₁.messages = db.messages := by
      obtain ⟨inviterID, -, haccept⟩ := bind_ok.1 haccept
      obtain ⟨_, -, haccept⟩ := bind_ok.1 haccept
      obtain ⟨_, -, haccept⟩ := bind_ok.1 haccept
      obtain ⟨_, -, haccept⟩ := bind_ok.1 haccept
      obtain ⟨-, haccept⟩ := require_bind_ok.1 haccept
      obtain ⟨-, haccept⟩ := require_bind_ok.1 haccept
      obtain ⟨-, haccept⟩ := require_bind_ok.1 haccept
      obtain ⟨⟨members, -, rfl⟩, -⟩ := insertMember_ok haccept
      dsimp only
      split <;> rfl
    refine ⟨i, orError_ok.1 hi, himage, hmessages ▸ hmessage, .inr ⟨rfl, recipientID, ha.named, ha.inviter, ha.absent,
      ⟨ha.within.publisher, ha.within.exists_iff, ha.within.level, ha.within.profiles.trans (.of_eq rfl)⟩, ha.publisher,
      ha.level⟩⟩

theorem ite_mem_cons {α β : Type} [DecidableEq α] {a b : α} {l : List α} {x y : β} :
    (if a ∈ l then x else if a = b then x else y) = if a ∈ b :: l then x else y := by
  by_cases hmem : a ∈ l
  · rw [if_pos hmem, if_pos (List.mem_cons_of_mem _ hmem)]
  · by_cases hab : a = b
    · rw [if_neg hmem, if_pos hab, if_pos (List.mem_cons.2 (.inl hab))]
    · rw [if_neg hmem, if_neg hab, if_neg fun h => (List.mem_cons.1 h).elim hab hmem]

theorem forceAddDockerMember_fold {actor : String} {level now : Int} {messageID : String → String}
    {users : List (String × String)} (h : users.foldlM (forceAddDockerMember text key actor level now messageID) db =
      .ok db') :
    Within key db db' ∧ db'.publisher? key = db.publisher? key ∧
      ∀ u, db'.level? key u = if u ∈ users.map Prod.snd then some level else db.level? key u := by
  induction users generalizing db with
  | nil =>
    cases h
    exact ⟨(Aside.refl _).within key, rfl, fun u => by simp⟩
  | cons user users ih =>
    rw [List.foldlM_cons] at h
    obtain ⟨db₂, h₂, h⟩ := bind_ok.1 h
    obtain ⟨db₁, hins, h₂⟩ := bind_ok.1 h₂
    have haside := (aside_cancelDockerInvitations _ now).trans (aside_insertAcceptedMembershipMessage h₂)
    obtain ⟨hwithin, hpublisher, hlevel⟩ := ih h
    have hpublisher₁ := publisher?_insertMember (k := key) hins
    have hwithin₁ : Within key db db₁ := within_insertMember hins
    obtain ⟨-, hlevel₁⟩ := insertMember_ok hins
    have hadded : ∀ u, db₁.level? key u = if u = user.2 then some level else db.level? key u := by
      intro u
      rw [hlevel₁]
      by_cases hu : u = user.2
      · rw [if_pos ⟨rfl, hu⟩, if_pos hu]
      · rw [if_neg fun h => hu h.2, if_neg hu]
    refine ⟨(hwithin₁.trans (haside.within key)).trans hwithin, ?_, fun u => ?_⟩
    · rw [hpublisher, haside.publisher, hpublisher₁]
    · rw [hlevel, haside.level, hadded, List.map_cons, ite_mem_cons]

theorem forM_ok_mem {α : Type} {f : α → Except TeamError Unit} {l : List α} {r : Unit} (h : l.forM f = .ok r) :
    ∀ a ∈ l, f a = .ok () := by
  induction l with
  | nil => simp
  | cons a l ih =>
    obtain ⟨_, ha, h⟩ := bind_ok.1 h
    intro b hb
    rcases List.mem_cons.1 hb with rfl | hb
    · exact ha
    · exact ih h b hb

/-- Whom `ForceAddDockerMembers` adds, and what becomes of the others. -/
theorem forceAddDockerMembers_ok {repository imageName actor : String} {usernames : List String} {level now : Int}
    {newID messageID : String → String}
    (h : forceAddDockerMembers text db repository imageName actor usernames level now newID messageID = .ok db') :
    let key := sanitizeDockerKey text repository imageName
    Within key db db' ∧ db.publisher? key ≠ none ∧
    ∃ users : List (String × String), (level = dockerPermissionOwner → users.length = 1) ∧
      (∀ user ∈ users, db'.username? user.2 = some (text.toLower (text.trimSpace user.1)) ∧
        user.1 ∈ usernames.map (sanitizeDockerUsername text) ∧ db.level? key user.2 = none) ∧
      db'.publisher? key = (if level = dockerPermissionOwner then
        (db.publisher? key).map fun _ => (users.head?.map Prod.fst).getD "" else db.publisher? key) ∧
      ∀ u, db'.level? key u = if u ∈ users.map Prod.snd then some level
        else if level = dockerPermissionOwner ∧ db.level? key u = some dockerPermissionOwner then some dockerPermissionTeam
        else db.level? key u := by
  intro key
  obtain ⟨-, h⟩ := require_bind_ok.1 h
  obtain ⟨-, h⟩ := require_bind_ok.1 h
  obtain ⟨⟨users, db₁⟩, hresolve, h⟩ := bind_ok.1 h
  obtain ⟨⟨-, hone⟩, h⟩ := require_bind_ok.1 h
  obtain ⟨_, hlock, h⟩ := bind_ok.1 h
  obtain ⟨_, hrow, -⟩ := bind_ok.1 hlock
  obtain ⟨_, habsent, h⟩ := bind_ok.1 h
  obtain ⟨haside, hnames⟩ := resolveMembers_ok usernames hresolve (by simp) fun _ => id
  obtain ⟨hwithin, hpublisher, hlevel⟩ := forceAddDockerMember_fold h
  have himage : db.publisher? key ≠ none := by
    rw [← haside.publisher]
    have hfound := require_ok.1 hrow
    simpa [DB.publisher?] using hfound
  have hone' : level = dockerPermissionOwner → users.length = 1 := fun hl => hone.resolve_left fun hne => hne hl
  have hnone : ∀ user ∈ users, db.level? key user.2 = none := by
    intro user huser
    obtain ⟨_, -, hnone⟩ := bind_ok.1 (forM_ok_mem habsent user huser)
    rw [← haside.level]
    exact require_ok.1 hnone
  by_cases hl : level = dockerPermissionOwner
  · simp only [if_pos hl] at hwithin hpublisher hlevel
    refine ⟨((haside.within key).trans ((within_demoteOwners _).trans (within_setPublisher _))).trans hwithin,
      himage, users, hone', fun user huser => ?_, ?_, fun u => ?_⟩
    · obtain ⟨hname, hmem⟩ := hnames user huser
      exact ⟨hwithin.profiles.kept _ _ hname, hmem, hnone user huser⟩
    · rw [hpublisher, publisher?_setPublisher, if_pos rfl, if_pos hl, publisher?_demoteOwners, haside.publisher]
    · rw [hlevel, level?_setPublisher, level?_demoteOwners, haside.level]
      simp only [hl, true_and]
      rfl
  · simp only [if_neg hl] at hwithin hpublisher hlevel
    refine ⟨(haside.within key).trans hwithin, himage, users, hone', fun user huser => ?_, ?_, fun u => ?_⟩
    · obtain ⟨hname, hmem⟩ := hnames user huser
      exact ⟨hwithin.profiles.kept _ _ hname, hmem, hnone user huser⟩
    · rw [hpublisher, haside.publisher, if_neg hl]
    · rw [hlevel, haside.level]
      simp only [hl, false_and, if_false]
      rfl

/-- The levels and the publisher after a level change, by how L4 moved. -/
inductive Relevels (text : Text) (db db' : DB) (key : Key) (actor username targetID : String) (current level : Int) : Prop
  /-- The actor and the target exchange levels. -/
  | exchange (actorID : String) (hactor : actor ≠ "") (hid : userIDForUsername text db.toAccountDB actor = .ok actorID)
      (heffective : dockerEffectivePermission db key actorID = .ok (dockerPermissionOwner, true))
      (hlevel : level = dockerPermissionOwner) (hcurrent : current ≠ dockerPermissionOwner)
      (hpublisher : db'.publisher? key = (db.publisher? key).map fun _ => username)
      (h : ∀ u, db'.level? key u = if u = targetID then some level
        else if u = actorID then (db.level? key u).map fun _ => current else db.level? key u)
  /-- The administrator form demotes the others. -/
  | demote (hactor : actor = "") (hlevel : level = dockerPermissionOwner) (hcurrent : current ≠ dockerPermissionOwner)
      (hpublisher : db'.publisher? key = (db.publisher? key).map fun _ => username)
      (h : ∀ u, db'.level? key u = if u = targetID then some level
        else if db.level? key u = some dockerPermissionOwner then some dockerPermissionTeam else db.level? key u)
  /-- L4 does not move; the last owner is not demoted. -/
  | plain (hsame : level = dockerPermissionOwner → current = dockerPermissionOwner)
      (hleft : current = dockerPermissionOwner → level < dockerPermissionOwner →
        ∃ v, v ≠ targetID ∧ db.level? key v = some dockerPermissionOwner)
      (hpublisher : db'.publisher? key = db.publisher? key)
      (h : ∀ u, db'.level? key u = if u = targetID then some level else db.level? key u)

theorem requireActor_ok {actor actorID : String} {level : Int} (hactor : actor ≠ "")
    (h : requireActor db key actor actorID = .ok level) : dockerEffectivePermission db key actorID = .ok (level, true) := by
  unfold requireActor at h
  rw [if_pos hactor] at h
  obtain ⟨_, -, h⟩ := bind_ok.1 h
  obtain ⟨permission, hpermission, h⟩ := bind_ok.1 h
  obtain ⟨hmember, h⟩ := require_bind_ok.1 h
  cases h
  rw [hpermission, ← hmember]

theorem requireOwnerLeft_ok {targetID : String} {current level : Int} {r : Unit}
    (h : requireOwnerLeft db key targetID current level = .ok r) (hc : current = dockerPermissionOwner)
    (hl : level < dockerPermissionOwner) : ∃ v, v ≠ targetID ∧ db.level? key v = some dockerPermissionOwner := by
  unfold requireOwnerLeft at h
  rw [if_pos ⟨hc, hl⟩] at h
  obtain ⟨m, hm, hk, hlevel, hne⟩ := require_ok.1 h
  have hrow : db.level? m.key m.userID = some m.permissionLevel := Roster.level?_of_mem (f := memberFields) hm
  exact ⟨m.userID, hne, by rw [← hk, hrow, hlevel]⟩

theorem setDockerMemberLevel_ok {repository imageName actor username : String} {level : Int}
    (h : setDockerMemberLevel text db repository imageName actor username level = .ok db') :
    let key := sanitizeDockerKey text repository imageName
    level ≤ dockerPermissionOwner ∧ Within key db db' ∧ db.publisher? key ≠ none ∧
    ∃ targetID current, userIDForUsername text db.toAccountDB (sanitizeDockerUsername text username) = .ok targetID ∧
      db.level? key targetID = some current ∧
      Relevels text db db' key (sanitizeDockerUsername text actor) (sanitizeDockerUsername text username) targetID current
          level := by
  intro key
  obtain ⟨hrange, h⟩ := require_bind_ok.1 h
  obtain ⟨targetID, htargetID, h⟩ := bind_ok.1 h
  obtain ⟨actorID, hactorID, h⟩ := bind_ok.1 h
  obtain ⟨_, -, h⟩ := bind_ok.1 h
  obtain ⟨_, hlock, h⟩ := bind_ok.1 h
  obtain ⟨_, hrow, -⟩ := bind_ok.1 hlock
  obtain ⟨actorLevel, hactorLevel, h⟩ := bind_ok.1 h
  obtain ⟨current, hcurrent, h⟩ := bind_ok.1 h
  obtain ⟨_, hleft, h⟩ := bind_ok.1 h
  obtain ⟨db₁, hexchange, h⟩ := bind_ok.1 h
  cases h
  have hcurrent : db.level? key targetID = some current := orError_ok.1 hcurrent
  have himage : db.publisher? key ≠ none := by
    have hfound := require_ok.1 hrow
    simpa [DB.publisher?] using hfound
  -- the target's row is set last
  have hset : ∀ d : DB, d.level? key targetID ≠ none → ∀ u,
      (d.setLevels (fun m => m.key = key && m.userID = targetID) level).level? key u =
        if u = targetID then some level else d.level? key u := by
    intro d hd u
    obtain ⟨l, hl⟩ := Option.ne_none_iff_exists'.1 hd
    rw [level?_setLevel]
    by_cases hu : u = targetID
    · subst hu
      simp [hl]
    · simp [hu]
  refine ⟨hrange.2, ?_⟩
  unfold exchangeOwner at hexchange
  split at hexchange
  · rename_i hmove
    split at hexchange
    · rename_i hactor
      obtain ⟨⟨hl, -⟩, hexchange⟩ := require_bind_ok.1 hexchange
      cases hexchange
      have hlevel := fun u => @level?_setLevel db key key u actorID current
      refine ⟨((within_setLevel actorID current).trans (within_setPublisher _)).trans (within_setLevel targetID level),
        himage, targetID, current, mapError_ok.1 htargetID, hcurrent, ?_⟩
      refine .exchange actorID hactor ?_ (hl ▸ requireActor_ok hactor hactorLevel) hmove.1 hmove.2 ?_ fun u => ?_
      · rw [actorIDForUsername, if_pos hactor] at hactorID
        exact mapError_ok.1 hactorID
      · rw [publisher?_setLevels, publisher?_setPublisher, if_pos rfl, publisher?_setLevels]
      · rw [hset _ (by rw [level?_setPublisher, hlevel]; split <;> simp [hcurrent]), level?_setPublisher, hlevel]
        simp
    · rename_i hactor
      cases hexchange
      have hlevel := fun u => @level?_demoteOwners db key key u fun u => decide (u ≠ targetID)
      refine ⟨((within_demoteOwners _).trans (within_setPublisher _)).trans (within_setLevel targetID level), himage,
        targetID, current, mapError_ok.1 htargetID, hcurrent, ?_⟩
      refine .demote (by simpa using hactor) hmove.1 hmove.2 ?_ fun u => ?_
      · rw [publisher?_setLevels, publisher?_setPublisher, if_pos rfl, publisher?_demoteOwners]
      · rw [hset _ (by rw [level?_setPublisher, hlevel]; split <;> simp [hcurrent]), level?_setPublisher, hlevel]
        by_cases hu : u = targetID <;> simp [hu]
  · rename_i hstay
    cases hexchange
    refine ⟨within_setLevel targetID level, himage, targetID, current, mapError_ok.1 htargetID, hcurrent, ?_⟩
    exact .plain (fun hl => by_contra fun hc => hstay ⟨hl, hc⟩) (requireOwnerLeft_ok hleft) rfl
      (hset db (by simp [hcurrent]))

theorem removeDockerMember_fold {actor : String} {now : Int} {messageID : String → String} {users : List (String × String)}
    (h : users.foldlM (removeDockerMember text key actor now messageID) db = .ok db') :
    Within key db db' ∧ db'.publisher? key = db.publisher? key ∧
      ∀ u, db'.level? key u = if u ∈ users.map Prod.snd then none else db.level? key u := by
  induction users generalizing db with
  | nil =>
    cases h
    exact ⟨(Aside.refl _).within key, rfl, fun u => by simp⟩
  | cons user users ih =>
    rw [List.foldlM_cons] at h
    obtain ⟨db₁, h₁, h⟩ := bind_ok.1 h
    obtain ⟨hwithin, hpublisher, hlevel⟩ := ih h
    have haside : Aside (db.deleteMembers fun m => m.key = key && m.userID = user.2) db₁ := by
      unfold removeDockerMember at h₁
      dsimp only at h₁
      split at h₁
      · exact aside_insertTeamRemovalMessage h₁
      · cases h₁
        exact .refl _
    refine ⟨((within_deleteMember user.2).trans (haside.within key)).trans hwithin, ?_, fun u => ?_⟩
    · rw [hpublisher, haside.publisher]
      rfl
    · rw [hlevel, haside.level, level?_deleteMember, List.map_cons]
      simp only [true_and]
      exact ite_mem_cons

theorem mapM_level_ok {f : String × String → Except TeamError Int} {users : List (String × String)} {levels : List Int}
    (h : users.mapM f = .ok levels) : ∀ user ∈ users, ∃ level ∈ levels, f user = .ok level := by
  induction users generalizing levels with
  | nil => simp
  | cons user users ih =>
    rw [List.mapM_cons] at h
    obtain ⟨level, hlevel, h⟩ := bind_ok.1 h
    obtain ⟨levels', hlevels, h⟩ := bind_ok.1 h
    cases h
    intro user' huser
    rcases List.mem_cons.1 huser with rfl | huser
    · exact ⟨level, by simp, hlevel⟩
    · obtain ⟨level', hmem, hf⟩ := ih hlevels user' huser
      exact ⟨level', by simp [hmem], hf⟩

theorem removeDockerMembers_ok {repository imageName actor : String} {usernames : List String} {now : Int}
    {messageID : String → String}
    (h : removeDockerMembers text db repository imageName actor usernames now messageID = .ok db') :
    let key := sanitizeDockerKey text repository imageName
    Within key db db' ∧ db.publisher? key ≠ none ∧ db'.publisher? key = db.publisher? key ∧
    ∃ ids : List String, ((∀ u ∈ ids, db.level? key u ≠ some dockerPermissionOwner) ∨
        1 < db.members.rows.countP fun m => m.key = key && m.permissionLevel = dockerPermissionOwner) ∧
      ∀ u, db'.level? key u = if u ∈ ids then none else db.level? key u := by
  intro key
  obtain ⟨-, h⟩ := require_bind_ok.1 h
  obtain ⟨users, -, h⟩ := bind_ok.1 h
  obtain ⟨_, -, h⟩ := bind_ok.1 h
  obtain ⟨_, hlock, h⟩ := bind_ok.1 h
  obtain ⟨_, hrow, -⟩ := bind_ok.1 hlock
  obtain ⟨_, -, h⟩ := bind_ok.1 h
  obtain ⟨levels, hlevels, h⟩ := bind_ok.1 h
  obtain ⟨hcount, h⟩ := require_bind_ok.1 h
  obtain ⟨hwithin, hpublisher, hlevel⟩ := removeDockerMember_fold h
  have himage : db.publisher? key ≠ none := by
    have hfound := require_ok.1 hrow
    simpa [DB.publisher?] using hfound
  refine ⟨hwithin, himage, hpublisher, users.map Prod.snd, ?_, hlevel⟩
  by_cases hnone : levels.count dockerPermissionOwner = 0
  · left
    intro u hu howner
    obtain ⟨user, huser, rfl⟩ := List.mem_map.1 hu
    obtain ⟨level, hmem, hf⟩ := mapM_level_ok hlevels user huser
    have hl : level = dockerPermissionOwner := Option.some.inj ((orError_ok.1 hf).symm.trans howner)
    exact List.count_eq_zero.1 hnone (hl ▸ hmem)
  · right
    have hpos : 1 ≤ levels.count dockerPermissionOwner := by omega
    exact lt_of_le_of_lt hpos (hcount.resolve_left hnone)

/-! ### Publishers -/

/-- A user whose name the publisher column has, and who had no row, got one with L4. -/
structure Restores (text : Text) (db db' : DB) (key : Key) (publisher userID : String) : Prop where
  column : db.publisher? key = some publisher
  nonempty : publisher ≠ ""
  named : db'.username? userID = some (text.toLower (text.trimSpace publisher))
  absent : db.level? key userID = none
  within : Within key db db'
  publisher : db'.publisher? key = db.publisher? key
  level : ∀ u, db'.level? key u = if u = userID then some dockerPermissionOwner else db.level? key u

theorem restores_insertMember {db₁ : DB} {publisher userID : String} {addedAt : Int} (haside : Aside db db₁)
    (hcolumn : db.publisher? key = some publisher) (hne : publisher ≠ "")
    (hname : db₁.username? userID = some (text.toLower (text.trimSpace publisher)))
    (habsent : db₁.level? key userID = none)
    (h : db₁.insertMember ⟨key.1, key.2, publisher, userID, dockerPermissionOwner, addedAt⟩ = .ok db') :
    Restores text db db' key publisher userID := by
  have hpublisher := publisher?_insertMember (k := key) h
  have hwithin : Within key db₁ db' := within_insertMember h
  obtain ⟨-, hlevel⟩ := insertMember_ok h
  refine ⟨hcolumn, hne, hwithin.profiles.kept _ _ hname, haside.level ▸ habsent, (haside.within key).trans hwithin,
    hpublisher.trans haside.publisher, fun u => ?_⟩
  rw [hlevel, haside.level]
  by_cases hu : u = userID
  · rw [if_pos ⟨rfl, hu⟩, if_pos hu]
  · rw [if_neg fun h => hu h.2, if_neg hu]

theorem dockerEffectivePermission_nonmember {userID : String} {permission : Int × Bool}
    (h : dockerEffectivePermission db key userID = .ok permission) (hmember : permission.2 = false) :
    db.level? key userID = none := by
  obtain ⟨-, h⟩ := require_bind_ok.1 h
  obtain ⟨image, -, h⟩ := bind_ok.1 h
  cases h
  cases hl : db.level? key userID with
  | none => rfl
  | some level => simp [effectiveBoundPermission, hl] at hmember

theorem createDockerInvitation_aside {first : DockerInvitation} {inviterLevel : Int} {recipientIDs : List (String × String)}
    {pair : DockerInvitation × UserMessage} (h : createDockerInvitation first inviterLevel recipientIDs db pair = .ok db') :
    Aside db db' := by
  obtain ⟨-, h⟩ := require_bind_ok.1 h
  obtain ⟨-, h⟩ := require_bind_ok.1 h
  obtain ⟨-, h⟩ := require_bind_ok.1 h
  obtain ⟨-, h⟩ := require_bind_ok.1 h
  obtain ⟨db₁, h₁, h⟩ := bind_ok.1 h
  refine Aside.trans ?_ ((aside_insertMessage h₁).trans (aside_insertInvitation h))
  split
  · exact aside_cancelDockerInvitations _ _
  · exact .refl _

theorem createDockerInvitation_fold {first : DockerInvitation} {inviterLevel : Int} {recipientIDs : List (String × String)}
    {pairs : List (DockerInvitation × UserMessage)}
    (h : pairs.foldlM (createDockerInvitation first inviterLevel recipientIDs) db = .ok db') : Aside db db' := by
  induction pairs generalizing db with
  | nil =>
    cases h
    exact .refl _
  | cons pair pairs ih =>
    rw [List.foldlM_cons] at h
    obtain ⟨db₁, h₁, h⟩ := bind_ok.1 h
    exact (createDockerInvitation_aside h₁).trans (ih h)

/-- The first invitation as the call reads it. -/
def firstInvitation (text : Text) (invitations : List (DockerInvitation × UserMessage)) : Key × String :=
  match invitations.head? with
  | none => (("", ""), "")
  | some (i, _) => (sanitizeDockerKey text i.repository i.imageName, sanitizeDockerUsername text i.inviter)

theorem firstInvitation_ok {invitations normalized : List (DockerInvitation × UserMessage)}
    {first : DockerInvitation × UserMessage} (h : invitations.mapM (normalizeInvitation text) = .ok normalized)
    (hfirst : normalized.head? = some first) : firstInvitation text invitations = (first.1.key, first.1.inviter) := by
  cases invitations with
  | nil =>
    cases h
    cases hfirst
  | cons pair rest =>
    rw [List.mapM_cons] at h
    obtain ⟨pair', hpair, h⟩ := bind_ok.1 h
    obtain ⟨rest', -, h⟩ := bind_ok.1 h
    cases h
    obtain rfl := Option.some.inj hfirst
    obtain ⟨i, message⟩ := pair
    obtain ⟨-, hpair⟩ := require_bind_ok.1 hpair
    obtain ⟨-, hpair⟩ := require_bind_ok.1 hpair
    obtain ⟨message', -, hpair⟩ := bind_ok.1 hpair
    cases hpair
    rfl

theorem createDockerInvitations_ok {invitations : List (DockerInvitation × UserMessage)} {newID : String → String}
    (h : createDockerInvitations text db invitations newID = .ok db') :
    Aside db db' ∨ ∃ userID, Restores text db db' (firstInvitation text invitations).1
      (firstInvitation text invitations).2 userID := by
  obtain ⟨-, h⟩ := require_bind_ok.1 h
  obtain ⟨normalized, hnormalized, h⟩ := bind_ok.1 h
  obtain ⟨first, hfirst, h⟩ := bind_ok.1 h
  rw [firstInvitation_ok hnormalized (orError_ok.1 hfirst)]
  obtain ⟨⟨inviterID, db₁⟩, hinviter, h⟩ := bind_ok.1 h
  obtain ⟨⟨recipientIDs, db₂⟩, hrecipients, h⟩ := bind_ok.1 h
  obtain ⟨_, -, h⟩ := bind_ok.1 h
  obtain ⟨_, -, h⟩ := bind_ok.1 h
  obtain ⟨⟨inviterLevel, db₃⟩, hlevel, h⟩ := bind_ok.1 h
  obtain ⟨haside, hname⟩ := ensureProfile_ok (mapError_ok.1 hinviter)
  have haside' := aside_ensureProfiles (mapError_ok.1 hrecipients)
  have hrest := createDockerInvitation_fold h
  obtain ⟨permission, hpermission, hlevel⟩ := bind_ok.1 hlevel
  split at hlevel
  · rename_i hmember
    obtain ⟨image, himage, hlevel⟩ := bind_ok.1 hlevel
    obtain ⟨⟨hne, hpublisher⟩, hlevel⟩ := require_bind_ok.1 hlevel
    obtain ⟨db₄, hins, hlevel⟩ := bind_ok.1 hlevel
    cases hlevel
    have hcolumn : db.publisher? first.1.key = some first.1.inviter := by
      rw [← (haside.trans haside').publisher, DB.publisher?, orError_ok.1 himage, Option.map_some, hpublisher]
    have hr : Restores text db db₃ first.1.key first.1.inviter inviterID :=
      restores_insertMember (haside.trans haside') hcolumn (hpublisher ▸ hne) (haside'.profiles.kept _ _ hname)
        (dockerEffectivePermission_nonmember hpermission hmember) hins
    refine .inr ⟨inviterID, hr.column, hr.nonempty, hrest.profiles.kept _ _ hr.named, hr.absent,
      hr.within.trans (hrest.within _), hrest.publisher.trans hr.publisher, fun u => ?_⟩
    rw [hrest.level, hr.level]
  · obtain ⟨-, hlevel⟩ := require_bind_ok.1 hlevel
    cases hlevel
    exact .inl ((haside.trans haside').trans hrest)

theorem restorePublisher_ok {publisher newID : String} {createdAt : Int} {members : List DockerMember}
    {r : List DockerMember × DB} (hcolumn : db.publisher? key = some publisher) (hne : publisher ≠ "")
    (h : restorePublisher text db key publisher createdAt members newID = .ok r) :
    Aside db r.2 ∨ ∃ userID, Restores text db r.2 key publisher userID := by
  unfold restorePublisher at h
  split at h
  · cases h
    exact .inl (.refl _)
  · cases h
  · rename_i userID db₁ hensure
    obtain ⟨haside, hname⟩ := ensureProfile_ok hensure
    split at h
    · cases h
      exact .inl haside
    · cases h
    · split at h
      · cases h
        exact .inl haside
      · rename_i habsent
        obtain ⟨db₂, hins, h⟩ := bind_ok.1 h
        cases h
        exact .inr ⟨userID, restores_insertMember haside hcolumn hne hname habsent hins⟩

theorem listDockerMembers_ok {repository imageName newID : String} {now : Int} {r : List DockerMember × DB}
    (h : listDockerMembers text db repository imageName now newID = .ok r) :
    let key := sanitizeDockerKey text repository imageName
    Aside db r.2 ∨ ∃ publisher userID, db.publisherMissing key publisher = true ∧
        Restores text db r.2 key publisher userID := by
  intro key
  unfold listDockerMembers at h
  dsimp only at h
  split at h
  · cases h
    exact .inl (.refl _)
  · rename_i image himage
    split at h
    · rename_i hmissing
      have hcolumn : db.publisher? key = some image.publisher := by rw [DB.publisher?, himage, Option.map_some]
      have hne : image.publisher ≠ "" := by
        unfold DB.publisherMissing at hmissing
        simp only [Bool.and_eq_true, decide_eq_true_eq] at hmissing
        exact hmissing.1
      rcases restorePublisher_ok hcolumn hne h with haside | ⟨userID, hr⟩
      · exact .inl haside
      · exact .inr ⟨image.publisher, userID, hmissing, hr⟩
    · cases h
      exact .inl (.refl _)

theorem getDockerImageDetailsForViewer_ok {repository imageName newID : String} {now : Int}
    {r : Option (DockerImage × List DockerMember) × DB}
    (h : getDockerImageDetailsForViewer text db repository imageName now newID = .ok r) :
    let key := sanitizeDockerKey text repository imageName
    Aside db r.2 ∨ ∃ publisher userID, db.publisherMissing key publisher = true ∧
        Restores text db r.2 key publisher userID := by
  intro key
  unfold getDockerImageDetailsForViewer at h
  split at h
  · cases h
    exact .inl (.refl _)
  · obtain ⟨⟨members, db₁⟩, hlist, h⟩ := bind_ok.1 h
    cases h
    exact listDockerMembers_ok hlist

/-! ### Renaming -/

theorem level?_renameDocker (oldName newName : String) : (renameDocker db oldName newName).level? k u = db.level? k u := by
  unfold DB.level? Roster.level? renameDocker
  dsimp only
  rw [Table.find?_update, Option.map_map]
  rfl

theorem publisher?_renameDocker (oldName newName : String) :
    (renameDocker db oldName newName).publisher? k =
      (db.publisher? k).map fun name => if name = oldName then newName else name := by
  unfold DB.publisher? renameDocker
  dsimp only
  rw [Table.find?_update, Option.map_map, Option.map_map]
  rfl

theorem enrolled_saveToken {token : Token} {newID : String} {now : Int} {accounts : AccountDB}
    (h : saveToken text db.toAccountDB token newID now = .ok accounts) :
    Enrolled db { db with toAccountDB := accounts } := by
  have hupsert : ∀ {a a' : AccountDB} {t : Token}, upsertToken a t = .ok a' → a'.profiles = a.profiles := by
    intro a a' t ht
    unfold upsertToken at ht
    split at ht
    · cases ht
      rfl
    · obtain ⟨tokens, -, ht⟩ := bind_ok.1 ht
      cases ht
      rfl
  unfold saveToken at h
  dsimp only at h
  split at h
  · cases h
    exact .of_eq rfl
  · have hsave : ∀ {accounts₁ : AccountDB} {name : String}, saveTokenInTx text accounts₁ name token now =
      .ok accounts → Enrolled { db with toAccountDB := accounts₁ } { db with toAccountDB := accounts } := by
      intro accounts₁ name hs
      obtain ⟨ban, -, hs⟩ := bind_ok.1 hs
      exact .of_eq (hupsert hs)
    split at h
    · obtain ⟨accounts₁, h₁, h⟩ := bind_ok.1 h
      exact (enrolled_insertProfile h₁).trans (hsave h)
    · obtain ⟨_, -, h⟩ := bind_ok.1 h
      exact hsave h

/-- A rename changes the name of one user, and a publisher of that name. -/
structure Renames (db db' : DB) (oldName newName : String) : Prop where
  free : ∀ u, db.username? u ≠ some newName
  level : ∀ k u, db'.level? k u = db.level? k u
  publisher : ∀ k, db'.publisher? k = (db.publisher? k).map fun name => if name = oldName then newName else name
  name : ∀ u, db'.username? u = (db.username? u).map fun name => if name = oldName then newName else name

theorem renameAccount_ok {oldName newName : String} {now : Int} {accounts : AccountDB} (hne : oldName ≠ newName)
    (h : renameAccount text db.toAccountDB oldName newName now = .ok accounts) :
    (∀ u, db.username? u ≠ some newName) ∧ ∀ u, DB.username? { db with toAccountDB := accounts } u =
      (db.username? u).map fun name => if name = oldName then newName else name := by
  obtain ⟨⟨profile, token⟩, -, h⟩ := bind_ok.1 h
  obtain ⟨-, h⟩ := require_bind_ok.1 h
  obtain ⟨ban, -, h⟩ := bind_ok.1 h
  obtain ⟨tokens, -, h⟩ := bind_ok.1 h
  obtain ⟨hfree, h⟩ := require_bind_ok.1 h
  cases h
  refine ⟨fun u => profileByName_none (hfree.resolve_left hne), fun u => ?_⟩
  unfold DB.username?
  dsimp only
  rw [Table.find?_update, Option.map_map, Option.map_map]
  congr 1
  funext p
  dsimp only [Function.comp]
  split <;> rfl

theorem renameToken_ok {oldName newName newID : String} {token : Token} {now : Int} {refused : Option AccountError}
    (h : renameToken text db oldName newName token newID now refused = .ok db') :
    Aside db db' ∨ ∃ oldName newName, Renames db db' oldName newName := by
  obtain ⟨-, h⟩ := require_bind_ok.1 h
  obtain ⟨-, h⟩ := require_bind_ok.1 h
  split at h
  · obtain ⟨accounts, hsave, h⟩ := bind_ok.1 h
    cases h
    exact .inl ⟨rfl, rfl, enrolled_saveToken (mapError_ok.1 hsave)⟩
  · rename_i hne
    obtain ⟨accounts, hrename, h⟩ := bind_ok.1 h
    obtain ⟨-, h⟩ := require_bind_ok.1 h
    obtain ⟨-, h⟩ := require_bind_ok.1 h
    obtain ⟨-, h⟩ := require_bind_ok.1 h
    cases h
    obtain ⟨hfree, hname⟩ := renameAccount_ok hne (mapError_ok.1 hrename)
    exact .inr ⟨_, _, hfree, fun k u => level?_renameDocker _ _, fun k => publisher?_renameDocker _ _, hname⟩

theorem Renames.unique {oldName newName : String} (h : Renames db db' oldName newName) (hunique : NamesUnique db) :
    NamesUnique db' := by
  intro u v name hu hv
  rw [h.name] at hu hv
  obtain ⟨x, hx, hxname⟩ := Option.map_eq_some_iff.1 hu
  obtain ⟨y, hy, hyname⟩ := Option.map_eq_some_iff.1 hv
  have hxne : x ≠ newName := fun hn => h.free u (hn ▸ hx)
  have hyne : y ≠ newName := fun hn => h.free v (hn ▸ hy)
  have hxy : x = y := by
    split_ifs at hxname hyname with hxo hyo hyo
    · rw [hxo, hyo]
    · exact absurd (hyname.trans hxname.symm) hyne
    · exact absurd (hxname.trans hyname.symm) hxne
    · rw [hxname, hyname]
  exact hunique u v x hx (hxy ▸ hy)

end Renop.DockerTeam
