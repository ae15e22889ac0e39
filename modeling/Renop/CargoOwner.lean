import Renop.CargoTeam
import Renop.CargoYank

/-!
# The owner of a package

A package gets its owner when it is first published, and L4 then moves by demoting or exchanging. `level?` is
the level of a user's own row; the calls are described by what they do to it (`level?_setLevels`,
`level?_insertMember`, `level?_deleteMembers`), and `Owned` says that one user has L4.

The calls keep `Owned` but for one: an actor who owns the package only through a global team exchanges
levels with the target, and the row of the real owner stays at L4. `TeamCall.Fair` excludes that call.
-/

namespace Renop.Cargo

open Sql

variable {text : Text}

/-! ### Levels -/

/-- The level of a user's own row. -/
def DB.level? (db : DB) (key : Key) (userID : String) : Option Int := (db.member? key userID).map (·.permissionLevel)

/-- Exactly one user has L4. -/
def Owned (db : DB) (key : Key) : Prop := ∃! u, db.level? key u = some cargoPermissionOwner

/-- Only packages that exist have members. -/
def Housed (db : DB) : Prop := ∀ k u, db.level? k u ≠ none → db.packages.find? k ≠ none

section Levels
variable {db db' : DB} {key k : Key} {u : String}

theorem level?_setLevels (p : CargoMember → Bool) (level : Int) :
    (db.setLevels p level).level? k u = (db.member? k u).map fun m => if p m then level else m.permissionLevel := by
  unfold DB.level? DB.member? DB.setLevels
  rw [Table.find?_update, Option.map_map]
  congr 1
  funext m
  dsimp only [Function.comp]
  split <;> rfl

theorem member?_key {m : CargoMember} (h : db.member? k u = some m) : m.key = k ∧ m.userID = u :=
  Prod.mk.inj (Table.find?_eq_some.1 h).2

theorem level?_of_mem {m : CargoMember} (h : m ∈ db.members.rows) :
    db.level? m.key m.userID = some m.permissionLevel := by
  have : db.member? m.key m.userID = some m := Table.find?_eq_some.2 ⟨h, rfl⟩
  rw [DB.level?, this, Option.map_some]

theorem level?_setLevel (userID : String) (level : Int) :
    (db.setLevels (fun m => m.key = key && m.userID = userID) level).level? k u =
      if k = key ∧ u = userID then (db.level? k u).map fun _ => level else db.level? k u := by
  rw [level?_setLevels, DB.level?]
  cases hm : db.member? k u with
  | none => simp
  | some m =>
    obtain ⟨hk, hu⟩ := member?_key hm
    simp only [Option.map_some, hk, hu, Bool.and_eq_true, decide_eq_true_eq]
    split <;> rfl

theorem level?_demote (p : String → Bool) :
    (db.setLevels (fun m => m.key = key && m.permissionLevel = cargoPermissionOwner && p m.userID)
        cargoPermissionManage).level? k u =
      if k = key ∧ p u = true ∧ db.level? k u = some cargoPermissionOwner then some cargoPermissionManage
      else db.level? k u := by
  rw [level?_setLevels, DB.level?]
  cases hm : db.member? k u with
  | none => simp
  | some m =>
    obtain ⟨hk, hu⟩ := member?_key hm
    simp only [Option.map_some, hk, hu, Bool.and_eq_true, decide_eq_true_eq, Option.some.injEq]
    split <;> rename_i h
    · rw [if_pos ⟨h.1.1, h.2, h.1.2⟩]
    · rw [if_neg fun h' => h ⟨⟨h'.1, h'.2.2⟩, h'.2.1⟩]

theorem level?_insertMember {m : CargoMember} (h : db.insertMember m = .ok db') :
    db'.level? k u = if (k, u) = m.id then some m.permissionLevel else db.level? k u := by
  obtain ⟨-, h⟩ := require_bind_ok.1 h
  obtain ⟨members, hins, h⟩ := bind_ok.1 h
  cases h
  obtain ⟨hnew, hrows⟩ := Table.insert_ok hins
  unfold DB.level? DB.member? Table.find?
  rw [hrows, List.find?_append]
  split
  · rename_i hid
    have : db.members.rows.find? (fun a => a.id = (k, u)) = none :=
      List.find?_eq_none.2 fun a ha => by simpa [hid] using hnew a ha
    rw [this]
    simp [hid]
  · rename_i hid
    simp [Ne.symm hid]

theorem level?_deleteMembers (userID : String) :
    (db.deleteMembers fun m => m.key = key && m.userID = userID).level? k u =
      if k = key ∧ u = userID then none else db.level? k u := by
  unfold DB.level? DB.member? DB.deleteMembers
  split
  · rename_i h
    have : (db.members.delete fun m => m.key = key && m.userID = userID).find? (k, u) = none :=
      Table.find?_eq_none.2 fun a ha => by
        have := (List.mem_filter.1 ha).2
        rintro hid
        obtain ⟨hk, hu⟩ := Prod.mk.inj hid
        simp [hk, hu, h] at this
    rw [this, Option.map_none]
  · rename_i h
    congr 1
    cases hm : db.members.find? (k, u) with
    | none =>
      exact Table.find?_eq_none.2 fun a ha => Table.find?_eq_none.1 hm a (List.mem_filter.1 ha).1
    | some m =>
      obtain ⟨hmem, hid⟩ := Table.find?_eq_some.1 hm
      obtain ⟨hk, hu⟩ := Prod.mk.inj hid
      refine Table.find?_eq_some.2 ⟨List.mem_filter.2 ⟨hmem, ?_⟩, hid⟩
      simpa only [hk, hu, Bool.not_and, Bool.or_eq_true, Bool.not_eq_true', decide_eq_false_iff_not, ← not_and_or]
        using h

theorem level?_congr (h : db'.members = db.members) : db'.level? k u = db.level? k u := by
  rw [DB.level?, DB.member?, h, DB.level?, DB.member?]

end Levels

/-! ### Counting -/

theorem eq_singleton {α : Type} {l : List α} {a : α} (hn : l.Nodup) (ha : a ∈ l) (h : ∀ b ∈ l, b = a) : l = [a] := by
  cases l with
  | nil => cases ha
  | cons b l =>
    obtain rfl := h b (by simp)
    cases l with
    | nil => rfl
    | cons c l =>
      obtain rfl := h c (by simp)
      simp at hn

theorem Owned.count {db : DB} {key : Key} (h : Owned db key) :
    db.members.rows.countP (fun m => m.key = key && m.permissionLevel = cargoPermissionOwner) = 1 := by
  obtain ⟨u, hu, huniq⟩ := h
  obtain ⟨m, hm, hlevel⟩ := Option.map_eq_some_iff.1 hu
  obtain ⟨hk, hid⟩ := member?_key hm
  rw [List.countP_eq_length_filter]
  have hnodup : (db.members.rows.filter fun m => m.key = key && m.permissionLevel = cargoPermissionOwner).Nodup :=
    (List.Nodup.of_map _ db.members.nodup).filter _
  have hmem := (Table.find?_eq_some.1 hm).1
  rw [eq_singleton hnodup (List.mem_filter.2 ⟨hmem, by simp [hk, hlevel]⟩) fun m' hm' => ?_]
  · rfl
  · obtain ⟨hmem', hp⟩ := List.mem_filter.1 hm'
    simp only [Bool.and_eq_true, decide_eq_true_eq] at hp
    have := level?_of_mem hmem'
    rw [hp.1, hp.2] at this
    refine db.members.eq_of_key hmem' hmem ?_
    rw [CargoMember.id, CargoMember.id, hp.1, hk, huniq _ this, hid]

/-! ### Frames -/

section Frames
variable {db db' : DB}

/-- Calls that add a message, an invitation or a profile leave packages and members alone. -/
structure Aside (db db' : DB) : Prop where
  packages : db'.packages = db.packages
  members : db'.members = db.members

theorem Aside.refl (db : DB) : Aside db db := ⟨rfl, rfl⟩

theorem Aside.trans {db'' : DB} (h : Aside db db') (h' : Aside db' db'') : Aside db db'' :=
  ⟨h'.packages.trans h.packages, h'.members.trans h.members⟩

theorem aside_ensureUserProfile {username newID userID : String}
    (h : ensureUserProfile text db username newID = .ok (userID, db')) : Aside db db' := by
  obtain ⟨profiles, rfl⟩ := ensureUserProfile_frame h
  exact ⟨rfl, rfl⟩

theorem aside_ensureUserProfiles {newID : String → String} {names : List String} {ids : List (String × String)}
    (h : ensureUserProfiles text newID db names = .ok (ids, db')) : Aside db db' := by
  induction names generalizing db ids with
  | nil => cases h; exact .refl _
  | cons name rest ih =>
    obtain ⟨⟨userID, db₁⟩, h₁, h⟩ := bind_ok.1 h
    obtain ⟨⟨ids', db₂⟩, h₂, h⟩ := bind_ok.1 h
    cases h
    exact (aside_ensureUserProfile h₁).trans (ih h₂)

theorem aside_insertMessage {m : UserMessage} (h : db.insertMessage m = .ok db') : Aside db db' := by
  obtain ⟨-, h⟩ := require_bind_ok.1 h
  obtain ⟨messages, -, h⟩ := bind_ok.1 h
  cases h
  exact ⟨rfl, rfl⟩

theorem aside_insertInvitation {i : CargoInvitation} (h : db.insertInvitation i = .ok db') : Aside db db' := by
  obtain ⟨-, h⟩ := require_bind_ok.1 h
  obtain ⟨invitations, -, h⟩ := bind_ok.1 h
  cases h
  exact ⟨rfl, rfl⟩

theorem aside_cancelCargoInvitations (p : CargoInvitation → Bool) (actedAt : Int) :
    Aside db (cancelCargoInvitations db p actedAt) := ⟨rfl, rfl⟩

theorem aside_insertAcceptedMembershipMessage {id recipient sender actionKind title body payload : String} {now : Int}
    (h : insertAcceptedMembershipMessage text db id recipient sender actionKind title body payload now = .ok db') :
    Aside db db' := by
  unfold insertAcceptedMembershipMessage at h
  split at h
  · cases h; exact .refl db
  · exact aside_insertMessage h

theorem aside_insertTeamRemovalMessage {id recipient format : String} {key : Key} {now : Int}
    (h : insertTeamRemovalMessage text db id recipient format key now = .ok db') : Aside db db' := by
  unfold insertTeamRemovalMessage at h
  split at h
  · cases h; exact .refl db
  · exact aside_insertMessage h

theorem foldlM_ok {α : Type} {f : DB → α → Except CargoError DB} {l : List α} {P : DB → Prop}
    (hf : ∀ d, P d → ∀ a ∈ l, ∀ d', f d a = .ok d' → P d') (h : l.foldlM f db = .ok db') (h₀ : P db) :
      P db' := by
  induction l generalizing db with
  | nil => cases h; exact h₀
  | cons a l ih =>
    rw [List.foldlM_cons] at h
    obtain ⟨db₁, h₁, h⟩ := bind_ok.1 h
    exact ih (fun d hd b hb => hf d hd b (by simp [hb])) h (hf db h₀ a (by simp) db₁ h₁)

theorem aside_createCargoInvitations {invitations : List (CargoInvitation × UserMessage)} {newID : String → String}
    (h : createCargoInvitations text db invitations newID = .ok db') : Aside db db' := by
  obtain ⟨-, h⟩ := require_bind_ok.1 h
  obtain ⟨invitations', -, h⟩ := bind_ok.1 h
  obtain ⟨⟨first, _⟩, -, h⟩ := bind_ok.1 h
  obtain ⟨⟨inviterID, db₁⟩, h₁, h⟩ := bind_ok.1 h
  obtain ⟨⟨recipientIDs, db₂⟩, h₂, h⟩ := bind_ok.1 h
  obtain ⟨-, -, h⟩ := bind_ok.1 h
  obtain ⟨-, -, h⟩ := bind_ok.1 h
  obtain ⟨permission, -, h⟩ := bind_ok.1 h
  obtain ⟨-, h⟩ := require_bind_ok.1 h
  have h₀ := (aside_ensureUserProfile (mapError_ok.1 h₁)).trans (aside_ensureUserProfiles (mapError_ok.1 h₂))
  refine foldlM_ok (P := Aside db) (fun d hd pair _ d' h => hd.trans ?_) h h₀
  obtain ⟨-, h⟩ := require_bind_ok.1 h
  obtain ⟨-, h⟩ := require_bind_ok.1 h
  obtain ⟨-, h⟩ := require_bind_ok.1 h
  obtain ⟨-, h⟩ := require_bind_ok.1 h
  obtain ⟨db₃, h₃, h⟩ := bind_ok.1 h
  refine Aside.trans ?_ ((aside_insertMessage h₃).trans (aside_insertInvitation h))
  split
  · exact aside_cancelCargoInvitations _ _
  · exact .refl d

theorem aside_resolveMembers {newID : String → String} {names : List String} {seen users : List (String × String)}
    (h : resolveMembers text newID db names seen = .ok (users, db')) : Aside db db' := by
  induction names generalizing db seen with
  | nil => cases h; exact .refl _
  | cons name rest ih =>
    obtain ⟨-, h⟩ := require_bind_ok.1 h
    split at h
    · exact ih h
    · obtain ⟨⟨userID, db₁⟩, h₁, h⟩ := bind_ok.1 h
      exact (aside_ensureUserProfile (mapError_ok.1 h₁)).trans (ih h)

end Frames

/-! ### What the calls do to the levels -/

section Calls
variable {db db' : DB}

/-- The key whose levels a call may change. -/
def Elsewhere (db db' : DB) (key : Key) : Prop :=
  db'.packages = db.packages ∧ ∀ k u, k ≠ key → db'.level? k u = db.level? k u

theorem find?_insert_ne_none {packages : Table CargoPackage.key} {p : CargoPackage} {e : CargoError}
    (h : db.packages.insert p e = .ok packages) :
    packages.find? p.key ≠ none ∧ ∀ k, db.packages.find? k ≠ none → packages.find? k ≠ none := by
  obtain ⟨-, hrows⟩ := Table.insert_ok h
  have hmem : ∀ q ∈ packages.rows, packages.find? q.key ≠ none := fun q hq =>
    Option.ne_none_iff_exists'.2 ⟨q, Table.find?_eq_some.2 ⟨hq, rfl⟩⟩
  refine ⟨hmem p (by simp [hrows]), fun k hk => ?_⟩
  obtain ⟨q, hq⟩ := Option.ne_none_iff_exists'.1 hk
  obtain ⟨hqmem, rfl⟩ := Table.find?_eq_some.1 hq
  exact hmem q (by simp [hrows, hqmem])

theorem recordCargoPublication_levels {pkg : CargoPackage} {version : CargoVersion} {username newID : String}
    (h : recordCargoPublication text db pkg version username newID = .ok db') :
    let key := (sanitizedPackage text pkg).key
    db'.packages.find? key ≠ none ∧ (∀ k, db.packages.find? k ≠ none → db'.packages.find? k ≠ none) ∧
    ((db.packages.find? key ≠ none ∧ ∀ k u, db'.level? k u = db.level? k u) ∨
      db.packages.find? key = none ∧ ∃ owner, ∀ k u, db'.level? k u =
        if (k, u) = (key, owner) then some cargoPermissionOwner else db.level? k u) := by
  intro key
  obtain ⟨-, h⟩ := require_bind_ok.1 h
  obtain ⟨⟨userID, db₁⟩, hprofile, h⟩ := bind_ok.1 h
  obtain ⟨-, -, h⟩ := bind_ok.1 h
  obtain ⟨-, -, h⟩ := bind_ok.1 h
  obtain ⟨db₂, hjoin, h⟩ := bind_ok.1 h
  obtain ⟨-, h⟩ := require_bind_ok.1 h
  obtain ⟨versions, -, h⟩ := bind_ok.1 h
  cases h
  obtain ⟨profiles, rfl⟩ := ensureUserProfile_frame (mapError_ok.1 hprofile)
  simp only [find?_updatePackage_ne_none]
  unfold joinCargoPackage at hjoin
  split at hjoin
  · rename_i hnone
    obtain ⟨packages, hins, hjoin⟩ := bind_ok.1 hjoin
    obtain ⟨hself, hold⟩ := find?_insert_ne_none hins
    have hlevel := fun k u => level?_insertMember (k := k) (u := u) hjoin
    obtain ⟨members, rfl⟩ := insertMember_frame hjoin
    exact ⟨hself, hold, .inr ⟨hnone, userID, hlevel⟩⟩
  · rename_i stored hstored
    obtain ⟨-, h⟩ := require_bind_ok.1 hjoin
    obtain ⟨-, h⟩ := require_bind_ok.1 h
    obtain ⟨permission, -, h⟩ := bind_ok.1 h
    obtain ⟨-, h⟩ := require_bind_ok.1 h
    cases h
    have hsome : db.packages.find? key ≠ none := Option.ne_none_iff_exists'.2 ⟨stored, hstored⟩
    exact ⟨hsome, fun _ hk => hk, .inl ⟨hsome, fun _ _ => rfl⟩⟩

theorem recordCargoMirrorPublication_levels {pkg : CargoPackage} {version : CargoVersion} {now : Int}
    (h : recordCargoMirrorPublication text db pkg version now = .ok db') :
    (∀ k, db.packages.find? k ≠ none → db'.packages.find? k ≠ none) ∧ ∀ k u, db'.level? k u = db.level? k u := by
  obtain ⟨-, h⟩ := require_bind_ok.1 h
  obtain ⟨db₁, hjoin, h⟩ := bind_ok.1 h
  have hjoined : (∀ k, db.packages.find? k ≠ none → db₁.packages.find? k ≠ none) ∧
      db₁.members = db.members := by
    unfold joinMirroredPackage at hjoin
    split at hjoin
    · obtain ⟨packages, hins, hjoin⟩ := bind_ok.1 hjoin
      cases hjoin
      exact ⟨(find?_insert_ne_none hins).2, rfl⟩
    · obtain ⟨-, hjoin⟩ := require_bind_ok.1 hjoin
      cases hjoin
      exact ⟨fun k hk => find?_updatePackage_ne_none.2 hk, rfl⟩
  have hlevel := fun k u => level?_congr (k := k) (u := u) hjoined.2
  split at h
  · obtain ⟨versions, -, h⟩ := bind_ok.1 h
    cases h
    exact ⟨hjoined.1, hlevel⟩
  · cases h
    exact ⟨hjoined.1, hlevel⟩

/-- What an acceptance found and did: the recipient had no row and gets the level of the invitation. -/
structure Accepts (text : Text) (db db' : DB) (i : CargoInvitation) (recipientID : String) : Prop where
  inviter : ∃ inviterID permission, userIDForUsernameTx text db i.inviter = .ok inviterID ∧
    cargoEffectivePermission db i.key inviterID = .ok permission ∧
    (i.level = cargoPermissionOwner → cargoPermissionOwner ≤ permission.1)
  absent : db.level? i.key recipientID = none
  elsewhere : Elsewhere db db' i.key
  level : ∀ u, db'.level? i.key u =
    if u = recipientID then some i.level
    else if i.level = cargoPermissionOwner ∧ db.level? i.key u = some cargoPermissionOwner then some cargoPermissionManage
    else db.level? i.key u

theorem acceptCargoInvitation_levels {i : CargoInvitation} {recipient : String} {actedAt : Int}
    (h : acceptCargoInvitation text db i recipient actedAt = .ok db') :
    ∃ recipientID, Accepts text db db' i recipientID := by
  obtain ⟨inviterID, hinviter, h⟩ := bind_ok.1 h
  obtain ⟨recipientID, hrecipient, h⟩ := bind_ok.1 h
  obtain ⟨_, -, h⟩ := bind_ok.1 h
  obtain ⟨permission, hpermission, h⟩ := bind_ok.1 h
  obtain ⟨-, h⟩ := require_bind_ok.1 h
  obtain ⟨howner, h⟩ := require_bind_ok.1 h
  obtain ⟨hnew, h⟩ := require_bind_ok.1 h
  have hlevel := fun k u => level?_insertMember (k := k) (u := u) h
  have hpackages : db'.packages = db.packages := by
    obtain ⟨members, rfl⟩ := insertMember_frame h
    dsimp only
    split <;> rfl
  have hdemote : ∀ k u, (if i.level = cargoPermissionOwner then
      db.setLevels (fun m => m.key = i.key && m.permissionLevel = cargoPermissionOwner && m.userID ≠ recipientID)
        cargoPermissionManage
      else db).level? k u =
      if i.level = cargoPermissionOwner ∧ k = i.key ∧ u ≠ recipientID ∧ db.level? k u = some cargoPermissionOwner then
        some cargoPermissionManage
      else db.level? k u := by
    intro k u
    split
    · rename_i hl
      rw [level?_demote fun u => decide (u ≠ recipientID)]
      simp [hl]
    · rename_i hl
      simp [hl]
  refine ⟨recipientID, ⟨inviterID, permission, mapError_ok.1 hinviter, mapError_ok.1 hpermission,
    fun hl => howner.resolve_left fun h => h hl⟩, by rw [DB.level?, hnew, Option.map_none],
    ⟨hpackages, fun k u hk => ?_⟩, fun u => ?_⟩
  · rw [hlevel, hdemote, if_neg fun h => hk (congrArg Prod.fst h), if_neg fun h => hk h.2.1]
  · rw [hlevel, hdemote]
    by_cases hu : u = recipientID
    · subst hu
      exact (if_pos rfl).trans (if_pos rfl).symm
    · rw [if_neg fun h => hu (congrArg Prod.snd h), if_neg hu]
      simp [hu]

theorem respondCargoInvitation_levels {id recipient repository : String} {accept : Bool} {actedAt : Int}
    (h : respondCargoInvitation text db id recipient repository accept actedAt = .ok db') :
    (∀ k u, db'.level? k u = db.level? k u) ∧ db'.packages = db.packages ∨
    accept = true ∧ ∃ i ∈ db.invitations.rows, i.id = sanitized text id 64 ∧ db.packages.find? i.key ≠ none ∧
      ∃ recipientID, Accepts text db db' i recipientID := by
  obtain ⟨i, hi, h⟩ := bind_ok.1 h
  have hfound := orError_ok.1 hi
  have hid : i.id = sanitized text id 64 := by
    have := List.find?_some hfound
    simp only [Bool.and_eq_true, decide_eq_true_eq] at this
    exact this.1.1
  obtain ⟨_, hlock, h⟩ := bind_ok.1 h
  obtain ⟨_, -, hlock⟩ := bind_ok.1 hlock
  obtain ⟨db₁, haccept, h⟩ := bind_ok.1 h
  obtain ⟨-, h⟩ := require_bind_ok.1 h
  cases h
  cases accept with
  | false =>
    cases haccept
    exact .inl ⟨fun _ _ => rfl, rfl⟩
  | true =>
    obtain ⟨recipientID, ha⟩ := acceptCargoInvitation_levels haccept
    exact .inr ⟨rfl, i, List.mem_of_find?_eq_some hfound, hid, require_ok.1 hlock, recipientID, ha.inviter, ha.absent,
      ha.elsewhere, ha.level⟩

/-- The levels after a level change, by how L4 moved. -/
inductive Relevels (text : Text) (db db' : DB) (key : Key) (actor targetID : String) (current level : Int) : Prop
  /-- The actor and the target exchange levels. -/
  | exchange (actorID : String) (hactor : actor ≠ "") (hid : userIDForUsername text db actor = .ok actorID)
      (heffective : cargoEffectivePermission db key actorID = .ok (cargoPermissionOwner, true))
      (hlevel : level = cargoPermissionOwner) (hcurrent : current ≠ cargoPermissionOwner)
      (h : ∀ u, db'.level? key u = if u = targetID then some level
        else if u = actorID then (db.level? key u).map fun _ => current else db.level? key u)
  /-- The administrator form demotes the others. -/
  | demote (hactor : actor = "") (hlevel : level = cargoPermissionOwner) (hcurrent : current ≠ cargoPermissionOwner)
      (h : ∀ u, db'.level? key u = if u = targetID then some level
        else if db.level? key u = some cargoPermissionOwner then some cargoPermissionManage else db.level? key u)
  /-- L4 does not move; the last owner is not demoted. -/
  | plain (hsame : level = cargoPermissionOwner → current = cargoPermissionOwner)
      (hleft : current = cargoPermissionOwner → level < cargoPermissionOwner →
        ∃ v, v ≠ targetID ∧ db.level? key v = some cargoPermissionOwner)
      (h : ∀ u, db'.level? key u = if u = targetID then some level else db.level? key u)

theorem requireActor_ok {key : Key} {actor actorID : String} {level : Int} (hactor : actor ≠ "")
    (h : requireActor db key actor actorID = .ok level) : cargoEffectivePermission db key actorID = .ok (level, true) := by
  unfold requireActor at h
  rw [if_pos hactor] at h
  obtain ⟨_, -, h⟩ := bind_ok.1 h
  obtain ⟨permission, hpermission, h⟩ := bind_ok.1 h
  obtain ⟨hmember, h⟩ := require_bind_ok.1 h
  cases h
  rw [mapError_ok.1 hpermission, ← hmember]

theorem requireOwnerLeft_ok {key : Key} {targetID : String} {current level : Int} {u : Unit}
    (h : requireOwnerLeft db key targetID current level = .ok u) (hc : current = cargoPermissionOwner)
    (hl : level < cargoPermissionOwner) : ∃ v, v ≠ targetID ∧ db.level? key v = some cargoPermissionOwner := by
  unfold requireOwnerLeft at h
  rw [if_pos ⟨hc, hl⟩] at h
  obtain ⟨m, hm, rfl, hlevel, hne⟩ := require_ok.1 h
  exact ⟨m.userID, hne, by rw [level?_of_mem hm, hlevel]⟩

theorem setCargoMemberLevel_levels {repository normalizedName actor username : String} {level : Int}
    (h : setCargoMemberLevel text db repository normalizedName actor username level = .ok db') :
    let key := sanitizeCargoKey text repository normalizedName
    level ≤ cargoPermissionOwner ∧ Elsewhere db db' key ∧
    ∃ targetID current, userIDForUsername text db (sanitizeCargoUsername text username) = .ok targetID ∧
      db.level? key targetID = some current ∧
      Relevels text db db' key (sanitizeCargoUsername text actor) targetID current level := by
  intro key
  obtain ⟨hrange, h⟩ := require_bind_ok.1 h
  obtain ⟨targetID, htargetID, h⟩ := bind_ok.1 h
  obtain ⟨actorID, hactorID, h⟩ := bind_ok.1 h
  obtain ⟨_, -, h⟩ := bind_ok.1 h
  obtain ⟨_, -, h⟩ := bind_ok.1 h
  obtain ⟨actorLevel, hactorLevel, h⟩ := bind_ok.1 h
  obtain ⟨target, htarget, h⟩ := bind_ok.1 h
  obtain ⟨_, hleft, h⟩ := bind_ok.1 h
  obtain ⟨db₁, hexchange, h⟩ := bind_ok.1 h
  cases h
  have htarget : db.level? key targetID = some target.permissionLevel := by
    rw [DB.level?, orError_ok.1 htarget, Option.map_some]
  -- the target's row is set last
  have hset : ∀ (d : DB), d.level? key targetID ≠ none → ∀ u,
      (d.setLevels (fun m => m.key = key && m.userID = targetID) level).level? key u =
        if u = targetID then some level else d.level? key u := by
    intro d hd u
    obtain ⟨l, hl⟩ := Option.ne_none_iff_exists'.1 hd
    rw [level?_setLevel]
    by_cases hu : u = targetID
    · subst hu
      simp [hl]
    · simp [hu]
  have helse : ∀ (d : DB), Elsewhere db d key →
      Elsewhere db (d.setLevels (fun m => m.key = key && m.userID = targetID) level) key := by
    intro d hd
    refine ⟨hd.1, fun k u hk => ?_⟩
    rw [level?_setLevel, if_neg fun h => hk h.1, hd.2 k u hk]
  unfold exchangeOwner at hexchange
  split at hexchange
  · rename_i hmove
    split at hexchange
    · rename_i hactor
      obtain ⟨⟨hl, -⟩, hexchange⟩ := require_bind_ok.1 hexchange
      cases hexchange
      have hlevel := fun k u => @level?_setLevel db key k u actorID target.permissionLevel
      refine ⟨hrange.2, helse _ ⟨rfl, fun k u hk => by rw [hlevel, if_neg fun h => hk h.1]⟩, targetID, _,
        mapError_ok.1 htargetID, htarget, ?_⟩
      refine .exchange actorID hactor ?_ (hl ▸ requireActor_ok hactor hactorLevel) hmove.1 hmove.2 fun u => ?_
      · rw [actorIDForUsername, if_pos hactor] at hactorID
        exact mapError_ok.1 hactorID
      · rw [hset _ (by rw [hlevel]; split <;> simp [htarget]), hlevel]
        simp
    · rename_i hactor
      cases hexchange
      have hlevel := fun k u => @level?_demote db key k u fun u => decide (u ≠ targetID)
      refine ⟨hrange.2, helse _ ⟨rfl, fun k u hk => by rw [hlevel, if_neg fun h => hk h.1]⟩, targetID, _,
        mapError_ok.1 htargetID, htarget, ?_⟩
      refine .demote (by simpa using hactor) hmove.1 hmove.2 fun u => ?_
      rw [hset _ (by rw [hlevel]; split <;> simp [htarget]), hlevel]
      by_cases hu : u = targetID <;> simp [hu]
  · rename_i hstay
    cases hexchange
    refine ⟨hrange.2, helse _ ⟨rfl, fun _ _ _ => rfl⟩, targetID, _, mapError_ok.1 htargetID, htarget, ?_⟩
    exact .plain (fun hl => by_contra fun hc => hstay ⟨hl, hc⟩) (requireOwnerLeft_ok hleft)
      (hset db (by simp [htarget]))

theorem forceAddCargoMember_fold {key : Key} {packageName actor : String} {level now : Int} {messageID : String → String}
    {users : List (String × String)}
    (h : users.foldlM (forceAddCargoMember text key packageName actor level now messageID) db = .ok db') :
    db'.packages = db.packages ∧ ∀ k u, db'.level? k u =
      if k = key ∧ u ∈ users.map Prod.snd then some level else db.level? k u := by
  induction users generalizing db with
  | nil => cases h; simp
  | cons user users ih =>
    rw [List.foldlM_cons] at h
    obtain ⟨db₂, h₂, h⟩ := bind_ok.1 h
    obtain ⟨db₁, hins, h₂⟩ := bind_ok.1 h₂
    have haside := (aside_cancelCargoInvitations _ now).trans (aside_insertAcceptedMembershipMessage h₂)
    obtain ⟨hpackages, hlevel⟩ := ih h
    have hins' := fun k u => level?_insertMember (k := k) (u := u) hins
    obtain ⟨members, rfl⟩ := insertMember_frame hins
    refine ⟨hpackages.trans haside.packages, fun k u => ?_⟩
    have hid : (k, u) = CargoMember.id ⟨key.1, key.2, user.1, user.2, level, now⟩ ↔ k = key ∧ u = user.2 :=
      Prod.ext_iff
    rw [hlevel, level?_congr haside.members, hins']
    simp only [hid, List.map_cons, List.mem_cons]
    by_cases hk : k = key <;> by_cases hmem : u ∈ users.map Prod.snd <;> simp [hk, hmem]

theorem forM_ok_mem {α : Type} {f : α → Except CargoError Unit} {l : List α} {u : Unit} (h : l.forM f = .ok u) :
    ∀ a ∈ l, f a = .ok () := by
  induction l with
  | nil => simp
  | cons a l ih =>
    obtain ⟨_, ha, h⟩ := bind_ok.1 h
    intro b hb
    rcases List.mem_cons.1 hb with rfl | hb
    · exact ha
    · exact ih h b hb

/-- Who `ForceAddCargoMembers` adds, and what becomes of the others. -/
theorem forceAddCargoMembers_levels {repository normalizedName packageName actor : String} {usernames : List String}
    {level now : Int} {newID messageID : String → String}
    (h : forceAddCargoMembers text db repository normalizedName packageName actor usernames level now newID messageID =
      .ok db') :
    let key := sanitizeCargoKey text repository normalizedName
    Elsewhere db db' key ∧ db.packages.find? key ≠ none ∧
    ∃ ids : List String, (level = cargoPermissionOwner → ids.length = 1) ∧ (∀ u ∈ ids, db.level? key u = none) ∧
      ∀ u, db'.level? key u = if u ∈ ids then some level
        else if level = cargoPermissionOwner ∧ db.level? key u = some cargoPermissionOwner then some cargoPermissionManage
        else db.level? key u := by
  intro key
  obtain ⟨-, h⟩ := require_bind_ok.1 h
  obtain ⟨-, h⟩ := require_bind_ok.1 h
  obtain ⟨⟨users, db₁⟩, hresolve, h⟩ := bind_ok.1 h
  obtain ⟨⟨-, hone⟩, h⟩ := require_bind_ok.1 h
  obtain ⟨_, hlock, h⟩ := bind_ok.1 h
  obtain ⟨_, habsent, h⟩ := bind_ok.1 h
  have haside := aside_resolveMembers hresolve
  have hsame := fun k u => level?_congr (k := k) (u := u) haside.members
  obtain ⟨_, -, hlock⟩ := bind_ok.1 hlock
  obtain ⟨hpackages, hlevel⟩ := forceAddCargoMember_fold h
  have hdemote : ∀ k u, (if level = cargoPermissionOwner then
      db₁.setLevels (fun m => m.key = key && m.permissionLevel = cargoPermissionOwner) cargoPermissionManage
      else db₁).level? k u =
      if level = cargoPermissionOwner ∧ k = key ∧ db.level? k u = some cargoPermissionOwner then
        some cargoPermissionManage
      else db.level? k u := by
    intro k u
    split
    · rename_i hl
      have := @level?_demote db₁ key k u fun _ => true
      simpa [hl, hsame] using this
    · rename_i hl
      simp [hl, hsame]
  refine ⟨⟨?_, fun k u hk => ?_⟩, haside.packages ▸ require_ok.1 hlock, users.map Prod.snd, fun hl => ?_,
    fun u hu => ?_, fun u => ?_⟩
  · rw [hpackages, ← haside.packages]
    split <;> rfl
  · rw [hlevel, if_neg fun h => hk h.1, hdemote, if_neg fun h => hk h.2.1]
  · simpa [hl] using hone
  · obtain ⟨user, huser, rfl⟩ := List.mem_map.1 hu
    obtain ⟨_, -, hnone⟩ := bind_ok.1 (forM_ok_mem habsent user huser)
    rw [← hsame, DB.level?, require_ok.1 hnone, Option.map_none]
  · rw [hlevel, hdemote]
    by_cases hu : u ∈ users.map Prod.snd
    · rw [if_pos ⟨rfl, hu⟩, if_pos hu]
    · rw [if_neg fun h => hu h.2, if_neg hu]
      simp

theorem removeCargoMember_fold {key : Key} {actor : String} {now : Int} {messageID : String → String}
    {users : List (String × String)} (h : users.foldlM (removeCargoMember text key actor now messageID) db = .ok db') :
    db'.packages = db.packages ∧ ∀ k u, db'.level? k u =
      if k = key ∧ u ∈ users.map Prod.snd then none else db.level? k u := by
  induction users generalizing db with
  | nil => cases h; simp
  | cons user users ih =>
    rw [List.foldlM_cons] at h
    obtain ⟨db₁, h₁, h⟩ := bind_ok.1 h
    obtain ⟨hpackages, hlevel⟩ := ih h
    have haside : Aside (db.deleteMembers fun m => m.key = key && m.userID = user.2) db₁ := by
      unfold removeCargoMember at h₁
      dsimp only at h₁
      split at h₁
      · exact aside_insertTeamRemovalMessage h₁
      · cases h₁
        exact .refl _
    refine ⟨hpackages.trans haside.packages, fun k u => ?_⟩
    rw [hlevel, level?_congr haside.members, level?_deleteMembers]
    by_cases hk : k = key <;> by_cases hmem : u ∈ users.map Prod.snd <;> simp [hk, hmem]

theorem mapM_ok_mem {α β : Type} {f : α → Except CargoError β} {xs : List α} {ys : List β} (h : xs.mapM f = .ok ys) :
    ∀ x ∈ xs, ∃ y ∈ ys, f x = .ok y := by
  induction xs generalizing ys with
  | nil => simp
  | cons x xs ih =>
    rw [List.mapM_cons] at h
    obtain ⟨y, hy, h⟩ := bind_ok.1 h
    obtain ⟨ys', hys, h⟩ := bind_ok.1 h
    cases h
    intro x' hx'
    rcases List.mem_cons.1 hx' with rfl | hx'
    · exact ⟨y, by simp, hy⟩
    · obtain ⟨y', hy', hf⟩ := ih hys x' hx'
      exact ⟨y', by simp [hy'], hf⟩

theorem removeCargoMembers_levels {repository normalizedName actor : String} {usernames : List String} {now : Int}
    {messageID : String → String}
    (h : removeCargoMembers text db repository normalizedName actor usernames now messageID = .ok db') :
    let key := sanitizeCargoKey text repository normalizedName
    Elsewhere db db' key ∧ ∃ ids : List String,
      ((∀ u ∈ ids, db.level? key u ≠ some cargoPermissionOwner) ∨
        1 < db.members.rows.countP fun m => m.key = key && m.permissionLevel = cargoPermissionOwner) ∧
      ∀ u, db'.level? key u = if u ∈ ids then none else db.level? key u := by
  intro key
  obtain ⟨-, h⟩ := require_bind_ok.1 h
  obtain ⟨users, -, h⟩ := bind_ok.1 h
  obtain ⟨actorID, -, h⟩ := bind_ok.1 h
  obtain ⟨_, -, h⟩ := bind_ok.1 h
  obtain ⟨_, -, h⟩ := bind_ok.1 h
  obtain ⟨levels, hlevels, h⟩ := bind_ok.1 h
  obtain ⟨howners, h⟩ := require_bind_ok.1 h
  obtain ⟨hpackages, hlevel⟩ := removeCargoMember_fold h
  refine ⟨⟨hpackages, fun k u hk => by rw [hlevel, if_neg fun h => hk h.1]⟩, users.map Prod.snd, ?_, fun u => ?_⟩
  · by_cases hzero : levels.count cargoPermissionOwner = 0
    · refine .inl fun u hu hl => ?_
      obtain ⟨user, huser, rfl⟩ := List.mem_map.1 hu
      obtain ⟨level, hmem, hf⟩ := mapM_ok_mem hlevels user huser
      obtain ⟨member, hmember, hf⟩ := bind_ok.1 hf
      cases hf
      rw [DB.level?, orError_ok.1 hmember, Option.map_some, Option.some.injEq] at hl
      exact List.count_eq_zero.1 hzero (hl ▸ hmem)
    · have hlt := howners.resolve_left hzero
      exact .inr (Nat.lt_of_le_of_lt (Nat.pos_of_ne_zero hzero) hlt)
  · rw [hlevel]
    by_cases hu : u ∈ users.map Prod.snd
    · rw [if_pos ⟨rfl, hu⟩, if_pos hu]
    · rw [if_neg fun h => hu h.2, if_neg hu]

end Calls

/-! ### One step -/

inductive TeamCall
  | publish (pkg : CargoPackage) (version : CargoVersion) (username newID : String)
  | mirror (pkg : CargoPackage) (version : CargoVersion) (now : Int)
  | invite (invitations : List (CargoInvitation × UserMessage)) (newID : String → String)
  | respond (id recipient repository : String) (accept : Bool) (actedAt : Int)
  | forceAdd (repository normalizedName packageName actor : String) (usernames : List String) (level now : Int)
      (newID messageID : String → String)
  | setLevel (repository normalizedName actor username : String) (level : Int)
  | remove (repository normalizedName actor : String) (usernames : List String) (now : Int) (messageID : String → String)

namespace TeamCall

def run (text : Text) (db : DB) : TeamCall → Except CargoError DB
  | publish pkg version username newID => recordCargoPublication text db pkg version username newID
  | mirror pkg version now => recordCargoMirrorPublication text db pkg version now
  | invite invitations newID => createCargoInvitations text db invitations newID
  | respond id recipient repository accept actedAt => respondCargoInvitation text db id recipient repository accept actedAt
  | forceAdd repository normalizedName packageName actor usernames level now newID messageID =>
    forceAddCargoMembers text db repository normalizedName packageName actor usernames level now newID messageID
  | setLevel repository normalizedName actor username level =>
    setCargoMemberLevel text db repository normalizedName actor username level
  | remove repository normalizedName actor usernames now messageID =>
    removeCargoMembers text db repository normalizedName actor usernames now messageID

/-- An actor who makes another member of the package the owner has the L4 row, not only a global team's level. -/
def Fair (text : Text) (key : Key) (db : DB) : TeamCall → Prop
  | setLevel repository normalizedName actor username level =>
    sanitizeCargoKey text repository normalizedName = key → sanitizeCargoUsername text actor ≠ "" →
    level = cargoPermissionOwner → ∀ actorID targetID, userIDForUsername text db (sanitizeCargoUsername text actor) =
      .ok actorID → userIDForUsername text db (sanitizeCargoUsername text username) = .ok targetID →
      db.level? key targetID ≠ some cargoPermissionOwner →
      cargoEffectivePermission db key actorID = .ok (cargoPermissionOwner, true) →
      db.level? key actorID = some cargoPermissionOwner
  | _ => True

/-- Who may give the L4 row of a package to another user. `ForceAddCargoMembers` is called for administrators alone. -/
def Mandate (text : Text) (key : Key) (db : DB) : TeamCall → Prop
  | publish pkg _ _ _ => (sanitizedPackage text pkg).key = key ∧ db.packages.find? key = none
  | forceAdd .. => True
  | setLevel _ _ actor _ _ => sanitizeCargoUsername text actor = "" ∨
    ∃ actorID, userIDForUsername text db (sanitizeCargoUsername text actor) = .ok actorID ∧
      cargoEffectivePermission db key actorID = .ok (cargoPermissionOwner, true)
  | respond id _ _ accept _ => accept = true ∧ ∃ i ∈ db.invitations.rows, i.id = sanitized text id 64 ∧
      i.key = key ∧
    i.level = cargoPermissionOwner ∧ ∃ inviterID permission, userIDForUsernameTx text db i.inviter = .ok inviterID ∧
      cargoEffectivePermission db key inviterID = .ok permission ∧ cargoPermissionOwner ≤ permission.1
  | _ => False

end TeamCall

/-- A call that succeeds, or a change of the tables that the calls only read: accounts, global teams, bindings, locks. -/
inductive TeamStep (text : Text) (good : DB → TeamCall → Prop) : DB → DB → Prop
  | call {db db' : DB} (c : TeamCall) (hgood : good db c) (h : c.run text db = .ok db') : TeamStep text good db db'
  | other {db db' : DB} (hmembers : db'.members = db.members)
      (hpackages : ∀ k, db'.packages.find? k = none ↔ db.packages.find? k = none) : TeamStep text good db db'

section Step
variable {db db' : DB} {key : Key} {c : TeamCall}

theorem cargoPermission_ne : cargoPermissionManage ≠ cargoPermissionOwner := by decide

/-- L4 comes to a new user only by mandate. -/
theorem mandate_of_owner {u : String} (h : c.run text db = .ok db') (hnew : db'.level? key u = some cargoPermissionOwner)
    (hold : db.level? key u ≠ some cargoPermissionOwner) : c.Mandate text key db := by
  cases c with
  | publish pkg version username newID =>
    rcases recordCargoPublication_levels h with ⟨-, -, ⟨-, hsame⟩ | ⟨hnone, owner, hlevel⟩⟩
    · exact absurd (hsame key u ▸ hnew) hold
    · rw [hlevel] at hnew
      by_cases hid : (key, u) = ((sanitizedPackage text pkg).key, owner)
      · obtain ⟨rfl, rfl⟩ := Prod.mk.inj hid
        exact ⟨rfl, hnone⟩
      · rw [if_neg hid] at hnew
        exact absurd hnew hold
  | mirror pkg version now => exact hold ((recordCargoMirrorPublication_levels h).2 key u ▸ hnew)
  | invite invitations newID => exact hold (level?_congr (aside_createCargoInvitations h).members ▸ hnew)
  | respond id recipient repository accept actedAt =>
    rcases respondCargoInvitation_levels h with ⟨hsame, -⟩ | ⟨haccept, i, hi, hid, -, recipientID, ha⟩
    · exact absurd (hsame key u ▸ hnew) hold
    · by_cases hk : key = i.key
      · subst hk
        rw [ha.level] at hnew
        split at hnew
        · obtain ⟨inviterID, permission, h₁, h₂, h₃⟩ := ha.inviter
          have hl : i.level = cargoPermissionOwner := Option.some.inj hnew
          exact ⟨haccept, i, hi, hid, rfl, hl, inviterID, permission, h₁, h₂, h₃ hl⟩
        · split at hnew
          · exact absurd (Option.some.inj hnew) cargoPermission_ne
          · exact absurd hnew hold
      · exact absurd (ha.elsewhere.2 key u hk ▸ hnew) hold
  | forceAdd => trivial
  | setLevel repository normalizedName actor username level =>
    obtain ⟨-, helse, targetID, current, htargetID, hcurrent, hrelevel⟩ := setCargoMemberLevel_levels h
    by_cases hk : key = sanitizeCargoKey text repository normalizedName
    · subst hk
      cases hrelevel with
      | exchange actorID hactor hid heffective hlevel hne h => exact .inr ⟨actorID, hid, heffective⟩
      | demote hactor hlevel hne h => exact .inl hactor
      | plain hsame hleft h =>
        rw [h] at hnew
        split at hnew
        · rename_i hu
          subst hu
          exact absurd (hcurrent.trans (congrArg some (hsame (Option.some.inj hnew)))) hold
        · exact absurd hnew hold
    · exact absurd (helse.2 key u hk ▸ hnew) hold
  | remove repository normalizedName actor usernames now messageID =>
    obtain ⟨helse, ids, -, hlevel⟩ := removeCargoMembers_levels h
    by_cases hk : key = sanitizeCargoKey text repository normalizedName
    · subst hk
      rw [hlevel] at hnew
      split at hnew
      · cases hnew
      · exact hold hnew
    · exact hold (helse.2 key u hk ▸ hnew)

theorem Owned.replaced (level : Int) (hl : level = cargoPermissionOwner) (owner : String)
    (h : ∀ u, db'.level? key u = if u = owner then some level
      else if db.level? key u = some cargoPermissionOwner then some cargoPermissionManage else db.level? key u) :
    Owned db' key := by
  refine ⟨owner, (h owner).trans (by rw [if_pos rfl, hl]), fun u hu => ?_⟩
  dsimp only at hu
  rw [h] at hu
  split at hu
  · assumption
  · split at hu
    · exact absurd (Option.some.inj hu) cargoPermission_ne
    · contradiction

theorem Owned.congr (ho : Owned db key) (h : ∀ u, db'.level? key u = db.level? key u) : Owned db' key := by
  obtain ⟨owner, howner, huniq⟩ := ho
  exact ⟨owner, (h owner).trans howner, fun u hu => huniq u ((h u).symm.trans hu)⟩

theorem Owned.below (ho : Owned db key) (h : ∀ u, db'.level? key u = db.level? key u ∨
      db.level? key u ≠ some cargoPermissionOwner ∧ db'.level? key u ≠ some cargoPermissionOwner) : Owned db' key := by
  obtain ⟨owner, howner, huniq⟩ := ho
  refine ⟨owner, ?_, fun u hu => ?_⟩
  · rcases h owner with h | h
    · exact h.trans howner
    · exact absurd howner h.1
  · rcases h u with h | h
    · exact huniq u (h.symm.trans hu)
    · exact absurd hu h.2

theorem Owned.step_setLevel {repository normalizedName actor username : String} {level : Int} (ho : Owned db key)
    (hk : key = sanitizeCargoKey text repository normalizedName)
    (hfair : TeamCall.Fair text key db (.setLevel repository normalizedName actor username level))
    (h : setCargoMemberLevel text db repository normalizedName actor username level = .ok db') : Owned db' key := by
  subst hk
  obtain ⟨hrange, -, targetID, current, htargetID, hcurrent, hrelevel⟩ := setCargoMemberLevel_levels h
  cases hrelevel with
  | demote hactor hlevel hne h => exact Owned.replaced level hlevel targetID h
  | exchange actorID hactor hid heffective hlevel hne h =>
    have htarget : db.level? (sanitizeCargoKey text repository normalizedName) targetID ≠ some cargoPermissionOwner := by
      rw [hcurrent]
      exact fun h => hne (Option.some.inj h)
    -- the actor is the owner, so nobody else keeps L4
    have howner := hfair rfl hactor hlevel actorID targetID hid htargetID htarget heffective
    obtain ⟨owner, -, huniq⟩ := ho
    refine ⟨targetID, (h targetID).trans (by rw [if_pos rfl, hlevel]), fun u hu => ?_⟩
    dsimp only at hu
    rw [h] at hu
    by_cases hu' : u = targetID
    · exact hu'
    rw [if_neg hu'] at hu
    by_cases hua : u = actorID
    · subst hua
      rw [if_pos rfl, howner] at hu
      exact absurd (Option.some.inj hu) hne
    · rw [if_neg hua] at hu
      exact absurd ((huniq u hu).trans (huniq actorID howner).symm) hua
  | plain hsame hleft h =>
    refine ho.below fun u => ?_
    rw [h]
    split
    · rename_i hu
      subst hu
      by_cases hl : level = cargoPermissionOwner
      · exact .inl (by rw [hcurrent, hsame hl, hl])
      · refine .inr ⟨fun hc => ?_, fun h => hl (Option.some.inj h)⟩
        -- the only owner would be demoted
        have hc' : current = cargoPermissionOwner := Option.some.inj (hcurrent.symm.trans hc)
        obtain ⟨v, hv, hvo⟩ := hleft hc' (by omega)
        obtain ⟨owner, -, huniq⟩ := ho
        exact hv ((huniq v hvo).trans (huniq u hc).symm)
    · exact .inl rfl

theorem Owned.step (ho : Owned db key) (hp : db.packages.find? key ≠ none) (hfair : c.Fair text key db)
    (h : c.run text db = .ok db') : Owned db' key := by
  cases c with
  | publish pkg version username newID =>
    rcases recordCargoPublication_levels h with ⟨-, -, ⟨-, hsame⟩ | ⟨hnone, owner, hlevel⟩⟩
    · exact ho.congr (hsame key)
    · refine ho.congr fun u => (hlevel key u).trans (if_neg fun hid => hp ?_)
      have hkey : key = (sanitizedPackage text pkg).key := congrArg Prod.fst hid
      rw [hkey]
      exact hnone
  | mirror pkg version now => exact ho.congr ((recordCargoMirrorPublication_levels h).2 key)
  | invite invitations newID => exact ho.congr fun u => level?_congr (aside_createCargoInvitations h).members
  | respond id recipient repository accept actedAt =>
    rcases respondCargoInvitation_levels h with ⟨hsame, -⟩ | ⟨-, i, -, -, -, recipientID, ha⟩
    · exact ho.congr (hsame key)
    · by_cases hk : key = i.key
      · subst hk
        by_cases hl : i.level = cargoPermissionOwner
        · exact @Owned.replaced db _ _ i.level hl recipientID fun u => by rw [ha.level]; simp [hl]
        · refine ho.below fun u => ?_
          rw [ha.level]
          split
          · rename_i hu
            subst hu
            exact .inr ⟨by rw [ha.absent]; nofun, fun h => hl (Option.some.inj h)⟩
          · rw [if_neg fun h => hl h.1]
            exact .inl rfl
      · exact ho.congr fun u => ha.elsewhere.2 key u hk
  | forceAdd repository normalizedName packageName actor usernames level now newID messageID =>
    obtain ⟨helse, -, ids, hone, habsent, hlevel⟩ := forceAddCargoMembers_levels h
    by_cases hk : key = sanitizeCargoKey text repository normalizedName
    · subst hk
      by_cases hl : level = cargoPermissionOwner
      · obtain ⟨owner, rfl⟩ := List.length_eq_one_iff.1 (hone hl)
        exact @Owned.replaced db _ _ level hl owner fun u => by rw [hlevel]; simp [hl]
      · refine ho.below fun u => ?_
        rw [hlevel]
        split
        · rename_i hu
          exact .inr ⟨by rw [habsent u hu]; nofun, fun h => hl (Option.some.inj h)⟩
        · rw [if_neg fun h => hl h.1]
          exact .inl rfl
    · exact ho.congr fun u => helse.2 key u hk
  | setLevel repository normalizedName actor username level =>
    by_cases hk : key = sanitizeCargoKey text repository normalizedName
    · exact ho.step_setLevel hk hfair h
    · exact ho.congr fun u => (setCargoMemberLevel_levels h).2.1.2 key u hk
  | remove repository normalizedName actor usernames now messageID =>
    obtain ⟨helse, ids, howners, hlevel⟩ := removeCargoMembers_levels h
    by_cases hk : key = sanitizeCargoKey text repository normalizedName
    · subst hk
      refine ho.below fun u => ?_
      rw [hlevel]
      split
      · rename_i hu
        refine .inr ⟨?_, nofun⟩
        rcases howners with h | h
        · exact h u hu
        · exact absurd ho.count (by omega)
      · exact .inl rfl
    · exact ho.congr fun u => helse.2 key u hk

/-- Packages stay, and a user who gets a row gets it in a package that exists. -/
theorem run_packages (h : c.run text db = .ok db') :
    (∀ k, db.packages.find? k ≠ none → db'.packages.find? k ≠ none) ∧
    ∀ k u, db'.level? k u ≠ none → db.level? k u ≠ none ∨ db'.packages.find? k ≠ none := by
  cases c with
  | publish pkg version username newID =>
    rcases recordCargoPublication_levels h with ⟨hself, hold, ⟨-, hsame⟩ | ⟨-, owner, hlevel⟩⟩
    · exact ⟨hold, fun k u hu => .inl (hsame k u ▸ hu)⟩
    · refine ⟨hold, fun k u hu => ?_⟩
      rw [hlevel] at hu
      split at hu
      · rename_i hid
        rw [show k = (sanitizedPackage text pkg).key from congrArg Prod.fst hid]
        exact .inr hself
      · exact .inl hu
  | mirror pkg version now =>
    obtain ⟨hold, hsame⟩ := recordCargoMirrorPublication_levels h
    exact ⟨hold, fun k u hu => .inl (hsame k u ▸ hu)⟩
  | invite invitations newID =>
    have haside := aside_createCargoInvitations h
    exact ⟨fun k hk => haside.packages ▸ hk, fun k u hu => .inl (level?_congr haside.members ▸ hu)⟩
  | respond id recipient repository accept actedAt =>
    rcases respondCargoInvitation_levels h with ⟨hsame, hp⟩ | ⟨-, i, -, -, hpi, recipientID, ha⟩
    · exact ⟨fun k hk => hp ▸ hk, fun k u hu => .inl (hsame k u ▸ hu)⟩
    · refine ⟨fun k hk => ha.elsewhere.1 ▸ hk, fun k u hu => ?_⟩
      by_cases hk : k = i.key
      · rw [hk, ha.elsewhere.1]
        exact .inr hpi
      · exact .inl (ha.elsewhere.2 k u hk ▸ hu)
  | forceAdd repository normalizedName packageName actor usernames level now newID messageID =>
    obtain ⟨helse, hp, -⟩ := forceAddCargoMembers_levels h
    refine ⟨fun k hk => helse.1 ▸ hk, fun k u hu => ?_⟩
    by_cases hk : k = sanitizeCargoKey text repository normalizedName
    · rw [hk, helse.1]
      exact .inr hp
    · exact .inl (helse.2 k u hk ▸ hu)
  | setLevel repository normalizedName actor username level =>
    obtain ⟨-, helse, targetID, current, -, hcurrent, hrelevel⟩ := setCargoMemberLevel_levels h
    refine ⟨fun k hk => helse.1 ▸ hk, fun k u hu => .inl ?_⟩
    by_cases hk : k = sanitizeCargoKey text repository normalizedName
    · subst hk
      by_cases ht : u = targetID
      · rw [ht, hcurrent]
        nofun
      · cases hrelevel with
        | exchange actorID _ _ _ _ _ h =>
          rw [h, if_neg ht] at hu
          split at hu
          · simpa using hu
          · exact hu
        | demote _ _ _ h =>
          rw [h, if_neg ht] at hu
          split at hu
          · rename_i ho
            rw [ho]
            nofun
          · exact hu
        | plain _ _ h =>
          rw [h, if_neg ht] at hu
          exact hu
    · exact helse.2 k u hk ▸ hu
  | remove repository normalizedName actor usernames now messageID =>
    obtain ⟨helse, ids, -, hlevel⟩ := removeCargoMembers_levels h
    refine ⟨fun k hk => helse.1 ▸ hk, fun k u hu => .inl ?_⟩
    by_cases hk : k = sanitizeCargoKey text repository normalizedName
    · subst hk
      rw [hlevel] at hu
      split at hu
      · exact absurd rfl hu
      · exact hu
    · exact helse.2 k u hk ▸ hu

end Step

/-! ### Whole runs -/

def TeamRun (text : Text) (good : DB → TeamCall → Prop) : DB → DB → Prop :=
  Relation.ReflTransGen (TeamStep text good)

theorem Housed.run {good : DB → TeamCall → Prop} {db db' : DB} (h : Housed db) (hr : TeamRun text good db db') :
    Housed db' := by
  induction hr with
  | refl => exact h
  | tail _ hstep ih =>
    intro k u hu
    cases hstep with
    | call c _ hrun =>
      obtain ⟨hp, hl⟩ := run_packages hrun
      rcases hl k u hu with hu | hk
      · exact hp k (ih k u hu)
      · exact hk
    | other hmembers hpackages =>
      rw [level?_congr hmembers] at hu
      exact fun hk => ih k u hu ((hpackages k).1 hk)

theorem Owned.run {key : Key} {db db' : DB} (ho : Owned db key) (hp : db.packages.find? key ≠ none)
    (hr : TeamRun text (fun d c => c.Fair text key d) db db') : Owned db' key := by
  have : Owned db' key ∧ db'.packages.find? key ≠ none := by
    induction hr with
    | refl => exact ⟨ho, hp⟩
    | tail _ hstep ih =>
      cases hstep with
      | call c hfair hrun => exact ⟨ih.1.step ih.2 hfair hrun, (run_packages hrun).1 key ih.2⟩
      | other hmembers hpackages =>
        exact ⟨ih.1.congr fun u => level?_congr hmembers, fun hk => ih.2 ((hpackages key).1 hk)⟩
  exact this.1

theorem Owned.created {db db' : DB} {pkg : CargoPackage} {version : CargoVersion} {username newID : String}
    (hh : Housed db) (h : recordCargoPublication text db pkg version username newID = .ok db')
    (hnew : db.packages.find? (sanitizedPackage text pkg).key = none) :
    Owned db' (sanitizedPackage text pkg).key ∧ db'.packages.find? (sanitizedPackage text pkg).key ≠ none := by
  rcases recordCargoPublication_levels h with ⟨hself, -, ⟨hold, -⟩ | ⟨-, owner, hlevel⟩⟩
  · exact absurd hnew hold
  · refine ⟨⟨owner, (hlevel _ owner).trans (if_pos rfl), fun u hu => ?_⟩, hself⟩
    dsimp only at hu
    rw [hlevel] at hu
    split at hu
    · rename_i hid
      exact congrArg Prod.snd hid
    · exact absurd hnew (hh _ u (by rw [hu]; nofun))

/-- A package that `RecordCargoPublication` created has one L4 row in every state of a fair run, whatever happened
before; and in every state, only a call with a mandate gives L4 to a user who did not have it. -/
theorem one_owner (text : Text) (profiles : Table Profile.userID) (accountDeleted : String → Bool)
    (superTeamRole : String → String → Option Int) (resourceLock : Key → String → Option CargoError) :
    (∀ (db₁ db₂ db₃ : DB) (pkg : CargoPackage) (version : CargoVersion) (username newID : String),
      TeamRun text (fun _ _ => True) (DB.initial profiles accountDeleted superTeamRole resourceLock) db₁ →
      recordCargoPublication text db₁ pkg version username newID = .ok db₂ →
      db₁.packages.find? (sanitizedPackage text pkg).key = none →
      TeamRun text (fun db c => c.Fair text (sanitizedPackage text pkg).key db) db₂ db₃ →
      db₃.members.rows.countP (fun m => m.key = (sanitizedPackage text pkg).key &&
        m.permissionLevel = cargoPermissionOwner) = 1) ∧
    (∀ (db db' : DB) (c : TeamCall) (key : Key) (u : String), c.run text db = .ok db' →
      db'.level? key u = some cargoPermissionOwner → db.level? key u ≠ some cargoPermissionOwner →
      c.Mandate text key db) := by
  constructor
  · intro db₁ db₂ db₃ pkg version username newID hr₁ hpublish hnew hr₂
    have hhoused : Housed (DB.initial profiles accountDeleted superTeamRole resourceLock) := fun k u hu => absurd rfl hu
    obtain ⟨ho, hp⟩ := Owned.created (hhoused.run hr₁) hpublish hnew
    exact (ho.run hp hr₂).count
  · intro db db' c key u hrun hnew hold
    exact mandate_of_owner hrun hnew hold

/-! ### An owner through a global team -/

namespace TeamCall

/-- The tables after a call, unchanged if it fails. -/
def after (text : Text) (db : DB) (c : TeamCall) : DB :=
  match c.run text db with
  | .ok db' => db'
  | .error _ => db

theorem run_after {db : DB} {c : TeamCall} (h : (c.run text db).isOk = true) : c.run text db = .ok (c.after text db) := by
  unfold after
  cases hr : c.run text db with
  | error e => rw [hr] at h; cases h
  | ok db' => rfl

end TeamCall

/-- `bob` owns the global team `core`. -/
def teamStart : DB :=
  DB.initial ⟨[⟨"u-bob", "bob"⟩], by simp⟩ (fun _ => false)
    (fun team user => if team = "core" ∧ user = "u-bob" then some 4 else none) fun _ _ => none

def serdeCreated : DB := TeamCall.after .plain teamStart
  (.publish YankState.serde (YankState.serdeVersion "1.0.0") "alice" "u-alice")

def addCarol : TeamCall := .forceAdd "crates" "serde" "serde" "root" ["carol"] 1 5 (fun n => "u-" ++ n) fun n => "m-" ++ n

theorem publish_serde : recordCargoPublication .plain teamStart YankState.serde (YankState.serdeVersion "1.0.0") "alice"
    "u-alice" = .ok serdeCreated :=
  TeamCall.run_after (c := .publish YankState.serde (YankState.serdeVersion "1.0.0") "alice" "u-alice") (by decide)

/-- The package is bound to the team `core`. -/
def bindCore (db : DB) : DB := db.updatePackage ("crates", "serde") fun p => { p with superTeamPrefix := "core" }

def boundSerde : DB := addCarol.after .plain (bindCore serdeCreated)

theorem boundSerde_run {good : DB → TeamCall → Prop} (h : ∀ db, good db addCarol) :
    TeamRun .plain good serdeCreated boundSerde := by
  have hbind : TeamStep .plain good serdeCreated (bindCore serdeCreated) := .other rfl fun k => by
    rw [bindCore, find?_updatePackage]
    simp
  exact (Relation.ReflTransGen.single hbind).tail (.call addCarol (h _) (TeamCall.run_after (by decide)))

def alicePromotesCarol : TeamCall := .setLevel "crates" "serde" "alice" "carol" 4

/-- The owner hands the package over while its team has an owner too. -/
theorem one_owner_handed_over : ∃ db, TeamRun .plain (fun db c => c.Fair .plain ("crates", "serde") db) serdeCreated db ∧
    db.members.rows.map (fun m => (m.username, m.permissionLevel)) = [("alice", 1), ("carol", 4)] ∧ db.members.rows.countP
      (fun m => m.key = (sanitizedPackage .plain YankState.serde).key && m.permissionLevel = cargoPermissionOwner) = 1 := by
  have hfair : alicePromotesCarol.Fair .plain ("crates", "serde") boundSerde := by
    intro _ _ _ actorID targetID hactor _ _ _
    have halice : userIDForUsername .plain boundSerde (sanitizeCargoUsername .plain "alice") = .ok "u-alice" := by decide
    obtain rfl := Except.ok.inj (halice.symm.trans hactor)
    decide
  have hbound : TeamRun .plain (fun db c => c.Fair .plain ("crates", "serde") db) serdeCreated boundSerde :=
    boundSerde_run fun _ => trivial
  have hrun := hbound.tail (.call alicePromotesCarol hfair (TeamCall.run_after (by decide)))
  have hkey : (sanitizedPackage .plain YankState.serde).key = ("crates", "serde") := by decide
  refine ⟨_, hrun, by decide, ?_⟩
  refine (one_owner .plain ⟨[⟨"u-bob", "bob"⟩], by simp⟩ (fun _ => false)
    (fun team user => if team = "core" ∧ user = "u-bob" then some 4 else none) fun _ _ => none).1 _ _ _
      YankState.serde (YankState.serdeVersion "1.0.0") "alice" "u-alice" .refl publish_serde (by decide) ?_
  rw [hkey]
  exact hrun

def bobPromotesCarol : TeamCall := .setLevel "crates" "serde" "bob" "carol" 4

/-- `alice` owns `serde`, and `bob`, who owns the team it is bound to, makes `carol` the owner: now two rows have L4. -/
theorem two_owners : ∃ db, TeamRun .plain (fun _ _ => True) serdeCreated db ∧
    teamStart.packages.find? ("crates", "serde") = none ∧
    db.members.rows.map (fun m => (m.username, m.permissionLevel)) = [("alice", 4), ("carol", 4)] := by
  have hset : TeamStep .plain (fun _ _ => True) boundSerde (bobPromotesCarol.after .plain boundSerde) :=
    .call bobPromotesCarol trivial (TeamCall.run_after (by decide))
  exact ⟨_, (boundSerde_run fun _ => trivial).tail hset, by decide, by decide⟩

end Renop.Cargo
