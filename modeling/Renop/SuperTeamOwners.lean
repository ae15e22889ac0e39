import Renop.SuperTeamMembers

/-!
# Who may change a level of a global team

`Effect` says what a call does to the teams and the levels, and who is behind it. From it follows, over every run
of calls of users who are no managers, that each team keeps an owner and that the levels T3 and T4 come and go
only by an owner of the team.
-/

namespace Renop.SuperTeam

open Sql

/-! ### Levels after a statement -/

section Levels
variable {db db' : DB} {pre u : String}

/-- The level of `u` in the team `pre` becomes `l`, and no other level changes. -/
structure Changed (db db' : DB) (pre u : String) (l : Option Int) : Prop where
  level : db'.level? pre u = l
  other : ∀ p v, (p, v) ≠ (pre, u) → db'.level? p v = db.level? p v

/-- A statement that leaves teams and members alone. -/
structure Aside (db db' : DB) : Prop where
  teams : db'.teams = db.teams
  members : db'.members = db.members
  outside : db'.outside = db.outside

theorem Aside.refl (db : DB) : Aside db db := ⟨rfl, rfl, rfl⟩

theorem Aside.trans {db'' : DB} (h : Aside db db') (h' : Aside db' db'') : Aside db db'' :=
  ⟨h'.teams.trans h.teams, h'.members.trans h.members, h'.outside.trans h.outside⟩

theorem Aside.level (h : Aside db db') (p v : String) : db'.level? p v = db.level? p v := by
  rw [DB.level?, DB.level?, h.members]

theorem aside_cancel (p : Invitation → Bool) (actedAt : Int) : Aside db (cancelSuperTeamInvitations db p actedAt) :=
  ⟨rfl, rfl, rfl⟩

theorem aside_insertMessage {m : Cargo.UserMessage} (h : db.insertMessage m = .ok db') : Aside db db' := by
  obtain ⟨-, -, h⟩ := bind_ok.1 h
  obtain ⟨_, -, h⟩ := bind_ok.1 h
  cases h
  exact ⟨rfl, rfl, rfl⟩

theorem insertInvitation_ok {i : Invitation} (h : db.insertInvitation i = .ok db') :
    Aside db db' ∧ db'.invitations.rows = db.invitations.rows ++ [i] := by
  obtain ⟨-, -, h⟩ := bind_ok.1 h
  obtain ⟨_, hins, h⟩ := bind_ok.1 h
  cases h
  exact ⟨⟨rfl, rfl, rfl⟩, (Table.insert_ok hins).2⟩

theorem level?_eq_some {l : Int} : db.level? pre u = some l ↔
    ∃ m ∈ db.members.rows, m.teamPrefix = pre ∧ m.userID = u ∧ m.roleLevel = l := by
  simp only [DB.level?, Option.map_eq_some_iff, Table.find?_eq_some, Member.id, Prod.mk.injEq, and_assoc]

theorem changed_insertMember {m : Member} (h : db.insertMember m = .ok db') :
    db'.teams = db.teams ∧ db'.invitations = db.invitations ∧ db.level? m.teamPrefix m.userID = none ∧
      Changed db db' m.teamPrefix m.userID (some m.roleLevel) := by
  obtain ⟨members, hins, h⟩ := bind_ok.1 h
  cases h
  obtain ⟨hnew, hrows⟩ := Table.insert_ok hins
  have hnone : db.members.find? m.id = none := Table.find?_eq_none.2 hnew
  have hfind : ∀ k, members.find? k = (db.members.find? k).or (if m.id = k then some m else none) := by
    intro k
    simp [Table.find?, hrows, List.find?_append, List.find?_cons]
    split <;> simp_all
  refine ⟨rfl, rfl, ?_, ?_, fun p v hne => ?_⟩
  · simp [DB.level?, show (m.teamPrefix, m.userID) = m.id from rfl, hnone]
  · simp [DB.level?, show (m.teamPrefix, m.userID) = m.id from rfl, hfind, hnone]
  · have : m.id ≠ (p, v) := fun h => hne h.symm
    simp [DB.level?, hfind, this]

theorem changed_setLevel {l : Int} (h : db.level? pre u ≠ none) : Changed db (db.setLevel pre u l) pre u (some l) := by
  have hfind : ∀ k, (db.setLevel pre u l).members.find? k =
      (db.members.find? k).map fun m => if m.id = (pre, u) then { m with roleLevel := l } else m :=
    fun k => Table.find?_update _ _ (fun m => by split <;> rfl) k
  refine ⟨?_, fun p v hne => ?_⟩
  · obtain ⟨level, hlevel⟩ := Option.ne_none_iff_exists'.1 h
    obtain ⟨m, hm, -⟩ := Option.map_eq_some_iff.1 hlevel
    have hid := (Table.find?_eq_some.1 hm).2
    simp [DB.level?, hfind, hm, hid]
  · cases hm : db.members.find? (p, v) with
    | none => simp [DB.level?, hfind, hm]
    | some m =>
      have hid := (Table.find?_eq_some.1 hm).2
      simp [DB.level?, hfind, hm, hid, hne]

theorem find?_deleteMembers {p : Member → Bool} {k : String × String} :
    (db.deleteMembers p).members.find? k = (db.members.find? k).filter fun m => !p m := by
  cases h : db.members.find? k with
  | none =>
    rw [Option.filter_none]
    refine Table.find?_eq_none.2 fun m hm => ?_
    exact Table.find?_eq_none.1 h m (List.mem_filter.1 hm).1
  | some m =>
    obtain ⟨hm, hk⟩ := Table.find?_eq_some.1 h
    cases hp : p m with
    | false =>
      rw [Option.filter_some_pos (by simp [hp])]
      exact Table.find?_eq_some.2 ⟨List.mem_filter.2 ⟨hm, by simp [hp]⟩, hk⟩
    | true =>
      rw [Option.filter_some_neg (by simp [hp])]
      refine Table.find?_eq_none.2 fun m' hm' hk' => ?_
      obtain ⟨hm', hp'⟩ := List.mem_filter.1 hm'
      rw [db.members.eq_of_key hm' hm (hk'.trans hk.symm), hp] at hp'
      simp at hp'

theorem changed_deleteMember : Changed db (db.deleteMembers fun m => m.id = (pre, u)) pre u none := by
  refine ⟨?_, fun p v hne => ?_⟩
  · cases h : db.members.find? (pre, u) with
    | none => simp [DB.level?, find?_deleteMembers, h]
    | some m =>
      have hid := (Table.find?_eq_some.1 h).2
      simp [DB.level?, find?_deleteMembers, h, hid, Option.filter]
  · cases h : db.members.find? (p, v) with
    | none => simp [DB.level?, find?_deleteMembers, h]
    | some m =>
      have hid := (Table.find?_eq_some.1 h).2
      simp [DB.level?, find?_deleteMembers, h, hid, hne, Option.filter]

theorem level?_deleteTeam (p v : String) :
    (db.deleteMembers fun m => m.teamPrefix = pre).level? p v = if p = pre then none else db.level? p v := by
  cases h : db.members.find? (p, v) with
  | none => simp [DB.level?, find?_deleteMembers, h]
  | some m =>
    have hid := (Table.find?_eq_some.1 h).2
    have hpre : m.teamPrefix = p := congrArg Prod.fst hid
    by_cases hp : p = pre
    · subst hp
      simp [DB.level?, find?_deleteMembers, h, hpre, Option.filter]
    · simp [DB.level?, find?_deleteMembers, h, hpre, hp, Option.filter]

end Levels

/-! ### What a call does -/

/-- What a call of a user who is no manager does to teams and levels, and who is behind it. -/
inductive Effect (db db' : DB) (behind : String → Prop) : Prop
  | aside (hteams : db'.teams = db.teams) (hlevel : ∀ p v, db'.level? p v = db.level? p v)
  | created (t : Team) (owner : String) (hbehind : behind owner) (hnew : db.teams.find? t.teamPrefix = none)
      (hteams : db'.teams.rows = db.teams.rows ++ [t]) (hlevel : Changed db db' t.teamPrefix owner (some superTeamRoleOwner))
  | joined (pre u inviterID : String) (l inviterLevel : Int) (hbehind : behind inviterID) (hteams : db'.teams = db.teams)
      (hinviter : db.level? pre inviterID = some inviterLevel)
      (hauthority : l < superTeamRoleManage ∨ superTeamRoleOwner ≤ inviterLevel)
      (hrange : superTeamRoleRead ≤ l ∧ l ≤ superTeamRoleOwner)
      (hnone : db.level? pre u = none) (hlevel : Changed db db' pre u (some l))
  | levelSet (pre actorID u : String) (actorLevel current l : Int) (hbehind : behind actorID) (hteams : db'.teams = db.teams)
      (hactor : db.level? pre actorID = some actorLevel) (hcurrent : db.level? pre u = some current)
      (hauthority : superTeamRoleOwner ≤ actorLevel ∨ current < superTeamRoleManage ∧ l < superTeamRoleManage)
      (hrange : superTeamRoleRead ≤ l ∧ l ≤ superTeamRoleOwner)
      (hother : current = superTeamRoleOwner → l < superTeamRoleOwner →
        ∃ v, v ≠ u ∧ db.level? pre v = some superTeamRoleOwner)
      (hlevel : Changed db db' pre u (some l))
  | removed (pre actorID u : String) (actorLevel current : Int) (hbehind : behind actorID) (hteams : db'.teams = db.teams)
      (hactor : db.level? pre actorID = some actorLevel) (hcurrent : db.level? pre u = some current)
      (hauthority : actorID = u ∨ superTeamRoleOwner ≤ actorLevel ∨ current < superTeamRoleManage)
      (hother : current = superTeamRoleOwner → ∃ v, v ≠ u ∧ db.level? pre v = some superTeamRoleOwner)
      (hlevel : Changed db db' pre u none)
  | deleted (pre actorID : String) (actorLevel : Int) (hbehind : behind actorID)
      (hteams : db'.teams.rows = db.teams.rows.filter fun t => !decide (t.teamPrefix = pre))
      (hactor : db.level? pre actorID = some actorLevel) (hauthority : superTeamRoleOwner ≤ actorLevel)
      (hlevel : ∀ p v, db'.level? p v = if p = pre then none else db.level? p v)

/-- Every pending invitation is for one of the four levels. -/
def Invited (db : DB) : Prop :=
  ∀ i ∈ db.invitations.rows, superTeamRoleRead ≤ i.roleLevel ∧ i.roleLevel ≤ superTeamRoleOwner

section Calls
variable {text : Text} {db db' : DB}

theorem requireAnotherSuperTeamOwner_ok {pre u : String} {r : Unit}
    (h : requireAnotherSuperTeamOwner db pre u = .ok r) : ∃ v, v ≠ u ∧ db.level? pre v = some superTeamRoleOwner := by
  obtain ⟨m, hm, hpre, hlevel, hne⟩ := require_ok.1 h
  exact ⟨m.userID, hne, level?_eq_some.2 ⟨m, hm, hpre, rfl, hlevel⟩⟩

theorem invited_cancel {p : Invitation → Bool} {actedAt : Int} (h : Invited db) :
    Invited (cancelSuperTeamInvitations db p actedAt) := fun i hi => h i (List.mem_filter.1 hi).1

theorem createSuperTeam_effect {team : Team} {owner : String} {globalCreateLimit globalJoinLimit : Int} (hi : Invited db)
    (h : createSuperTeam text db team owner globalCreateLimit globalJoinLimit = .ok db') :
    Effect db db' (fun u => userIDForExistingAccount text db owner .permissionDenied = .ok u) ∧ Invited db' := by
  obtain ⟨team', -, h⟩ := bind_ok.1 h
  obtain ⟨-, h⟩ := require_bind_ok.1 h
  obtain ⟨ownerID, howner, h⟩ := bind_ok.1 h
  obtain ⟨-, -, h⟩ := bind_ok.1 h
  obtain ⟨hnew, h⟩ := require_bind_ok.1 h
  obtain ⟨limits, -, h⟩ := bind_ok.1 h
  obtain ⟨-, h⟩ := require_bind_ok.1 h
  obtain ⟨-, h⟩ := require_bind_ok.1 h
  obtain ⟨teams, hins, h⟩ := bind_ok.1 h
  obtain ⟨hteams, hinv, -, hlevel⟩ := changed_insertMember h
  have hrows := (Table.insert_ok hins).2
  rw [← show db'.teams = teams from hteams] at hrows
  exact ⟨.created { team' with
    createdBy := ownerID, createdByName := text.toLower (text.trimSpace owner), updatedAt := team'.createdAt }
    ownerID howner hnew hrows ⟨hlevel.level, hlevel.other⟩, by rw [Invited, hinv]; exact hi⟩

theorem deleteSuperTeam_effect {pre actor : String} {actedAt : Int} (hi : Invited db)
    (h : deleteSuperTeam text db pre actor false actedAt = .ok db') :
    Effect db db' (fun u => userIDForExistingAccount text db actor .permissionDenied = .ok u) ∧ Invited db' := by
  obtain ⟨pre, -, h⟩ := bind_ok.1 h
  obtain ⟨-, h⟩ := require_bind_ok.1 h
  obtain ⟨actorID, hactor, h⟩ := bind_ok.1 h
  obtain ⟨-, -, h⟩ := bind_ok.1 h
  obtain ⟨-, h⟩ := require_bind_ok.1 h
  obtain ⟨hperm, h⟩ := require_bind_ok.1 h
  obtain ⟨-, h⟩ := require_bind_ok.1 h
  cases h
  have hperm := hperm.resolve_left nofun
  cases hl : db.level? pre actorID with
  | none =>
    rw [hl] at hperm
    exact absurd hperm (by decide)
  | some level =>
    rw [hl] at hperm
    exact ⟨.deleted pre actorID level hactor rfl hl hperm fun p v => level?_deleteTeam p v, invited_cancel hi⟩

theorem setSuperTeamMemberLevel_effect {pre actor target : String} {level : Int} (hi : Invited db)
    (h : setSuperTeamMemberLevel text db pre actor target level false = .ok db') :
    Effect db db' (fun u => userIDForExistingAccount text db actor .permissionDenied = .ok u) ∧ Invited db' := by
  obtain ⟨pre, -, h⟩ := bind_ok.1 h
  obtain ⟨hrange, h⟩ := require_bind_ok.1 h
  obtain ⟨actorID, hactor, h⟩ := bind_ok.1 h
  obtain ⟨targetID, -, h⟩ := bind_ok.1 h
  obtain ⟨-, -, h⟩ := bind_ok.1 h
  obtain ⟨-, -, h⟩ := bind_ok.1 h
  obtain ⟨actorLevel, hactorLevel, h⟩ := bind_ok.1 h
  obtain ⟨-, h⟩ := require_bind_ok.1 h
  obtain ⟨current, hcurrent, h⟩ := bind_ok.1 h
  obtain ⟨hauthority, h⟩ := require_bind_ok.1 h
  obtain ⟨_, hother, h⟩ := bind_ok.1 h
  cases h
  have hcurrent := orError_ok.1 hcurrent
  refine ⟨.levelSet pre actorID targetID actorLevel current level hactor rfl (orError_ok.1 hactorLevel) hcurrent
    (hauthority.resolve_left nofun) hrange (fun hc hl => ?_) (changed_setLevel (by simp [hcurrent])), hi⟩
  simp only [hc, hl, decide_true, Bool.and_self, cond_true] at hother
  exact requireAnotherSuperTeamOwner_ok hother

theorem removeSuperTeamMember_effect {pre actor target : String} {actedAt : Int} (hi : Invited db)
    (h : removeSuperTeamMember text db pre actor target false actedAt = .ok db') :
    Effect db db' (fun u => userIDForExistingAccount text db actor .permissionDenied = .ok u) ∧ Invited db' := by
  obtain ⟨pre, -, h⟩ := bind_ok.1 h
  obtain ⟨-, h⟩ := require_bind_ok.1 h
  obtain ⟨actorID, hactor, h⟩ := bind_ok.1 h
  obtain ⟨targetID, -, h⟩ := bind_ok.1 h
  obtain ⟨-, -, h⟩ := bind_ok.1 h
  obtain ⟨actorLevel, hactorLevel, h⟩ := bind_ok.1 h
  obtain ⟨current, hcurrent, h⟩ := bind_ok.1 h
  obtain ⟨-, h⟩ := require_bind_ok.1 h
  obtain ⟨hauthority, h⟩ := require_bind_ok.1 h
  obtain ⟨_, hother, h⟩ := bind_ok.1 h
  cases h
  have hchanged : Changed db (db.deleteMembers fun m => m.id = (pre, targetID)) pre targetID none := changed_deleteMember
  refine ⟨.removed pre actorID targetID actorLevel current hactor rfl (orError_ok.1 hactorLevel) (orError_ok.1 hcurrent)
    ?_ (fun hc => ?_) ⟨hchanged.level, hchanged.other⟩, invited_cancel hi⟩
  · rcases hauthority with h | h | ⟨-, h⟩
    · exact .inl h
    · exact nomatch h
    · exact .inr h
  · simp only [hc, decide_true, cond_true] at hother
    exact requireAnotherSuperTeamOwner_ok hother

theorem respondSuperTeamInvitation_effect {id recipient : String} {accept : Bool} {globalJoinLimit actedAt : Int}
    (hi : Invited db) (h : respondSuperTeamInvitation text db id recipient accept globalJoinLimit actedAt = .ok db') :
    Effect db db' (fun u => ∃ i ∈ db.invitations.rows, i.id = id ∧ i.inviterID = u ∧
      userIDForExistingAccount text db recipient .invitationInvalid = .ok i.recipientID) ∧ Invited db' := by
  obtain ⟨-, h⟩ := require_bind_ok.1 h
  obtain ⟨recipientID, hrecipient, h⟩ := bind_ok.1 h
  obtain ⟨-, -, h⟩ := bind_ok.1 h
  obtain ⟨i, hfind, h⟩ := bind_ok.1 h
  obtain ⟨-, h⟩ := require_bind_ok.1 h
  obtain ⟨db₁, haccept, h⟩ := bind_ok.1 h
  obtain ⟨-, h⟩ := require_bind_ok.1 h
  cases h
  have hfind := orError_ok.1 hfind
  have hmem := List.mem_of_find?_eq_some hfind
  obtain ⟨hid, hrec⟩ : i.id = id ∧ i.recipientID = recipientID := by simpa using List.find?_some hfind
  cases accept with
  | false =>
    cases haccept
    exact ⟨.aside rfl fun _ _ => rfl, fun j hj => hi j (List.mem_filter.1 hj).1⟩
  | true =>
    obtain ⟨-, -, h⟩ := bind_ok.1 haccept
    obtain ⟨inviterLevel, hinviter, h⟩ := bind_ok.1 h
    obtain ⟨-, h⟩ := require_bind_ok.1 h
    obtain ⟨hauthority, h⟩ := require_bind_ok.1 h
    obtain ⟨hnone, h⟩ := require_bind_ok.1 h
    obtain ⟨limits, -, h⟩ := bind_ok.1 h
    obtain ⟨-, h⟩ := require_bind_ok.1 h
    obtain ⟨hteams, hinv, -, hlevel⟩ := changed_insertMember h
    refine ⟨.joined i.teamPrefix i.recipientID i.inviterID i.roleLevel inviterLevel ⟨i, hmem, hid, rfl, ?_⟩ hteams
      (orError_ok.1 hinviter) hauthority (hi i hmem) hnone ⟨hlevel.level, hlevel.other⟩, fun j hj => hi j ?_⟩
    · exact hrec ▸ hrecipient
    · have := (List.mem_filter.1 hj).1
      exact hinv ▸ this

theorem checkInvitations_range {pre inviter inviterID : String} {l : List (InvitationRequest × Cargo.UserMessage)}
    {seen : List String} {items : List (InvitationRequest × Cargo.UserMessage × String)}
    (h : checkInvitations text db pre inviter inviterID l seen = .ok items) :
    ∀ item ∈ items, superTeamRoleRead ≤ item.1.level ∧ item.1.level ≤ superTeamRoleOwner := by
  induction l generalizing seen items with
  | nil =>
    cases h
    exact fun _ hitem => absurd hitem List.not_mem_nil
  | cons pair l ih =>
    obtain ⟨i, message⟩ := pair
    obtain ⟨hi, h⟩ := require_bind_ok.1 h
    obtain ⟨recipientID, -, h⟩ := bind_ok.1 h
    obtain ⟨-, h⟩ := require_bind_ok.1 h
    obtain ⟨-, h⟩ := require_bind_ok.1 h
    obtain ⟨-, h⟩ := require_bind_ok.1 h
    obtain ⟨message, -, h⟩ := bind_ok.1 h
    obtain ⟨rest, hrest, h⟩ := bind_ok.1 h
    cases h
    intro item hitem
    rcases List.mem_cons.1 hitem with rfl | hitem
    · exact ⟨hi.2.2.1, hi.2.2.2.1⟩
    · exact ih hrest item hitem

theorem insertMessage_invited {m : Cargo.UserMessage} (hi : Invited db) (h : db.insertMessage m = .ok db') :
    Invited db' := by
  obtain ⟨-, -, h⟩ := bind_ok.1 h
  obtain ⟨_, -, h⟩ := bind_ok.1 h
  cases h
  exact hi

theorem createSuperTeamInvitation_ok {pre inviterID : String} {inviterLevel : Int}
    {item : InvitationRequest × Cargo.UserMessage × String} (hi : Invited db)
    (hitem : superTeamRoleRead ≤ item.1.level ∧ item.1.level ≤ superTeamRoleOwner)
    (h : createSuperTeamInvitation pre inviterID inviterLevel db item = .ok db') : Aside db db' ∧ Invited db' := by
  obtain ⟨i, message, recipientID⟩ := item
  obtain ⟨-, h⟩ := require_bind_ok.1 h
  obtain ⟨-, h⟩ := require_bind_ok.1 h
  obtain ⟨-, h⟩ := require_bind_ok.1 h
  obtain ⟨db₁, hmessage, h⟩ := bind_ok.1 h
  obtain ⟨hins, hrows⟩ := insertInvitation_ok h
  have hbefore : Aside db db₁ ∧ Invited db₁ := by
    split at hmessage
    · exact ⟨(aside_cancel _ _).trans (aside_insertMessage hmessage), insertMessage_invited (invited_cancel hi) hmessage⟩
    · exact ⟨aside_insertMessage hmessage, insertMessage_invited hi hmessage⟩
  refine ⟨hbefore.1.trans hins, fun j hj => ?_⟩
  rw [hrows] at hj
  rcases List.mem_append.1 hj with hj | hj
  · exact hbefore.2 j hj
  · rw [List.mem_singleton.1 hj]
    exact hitem

theorem foldlM_createSuperTeamInvitation_ok {pre inviterID : String} {inviterLevel : Int}
    {items : List (InvitationRequest × Cargo.UserMessage × String)} (hi : Invited db)
    (hrange : ∀ item ∈ items, superTeamRoleRead ≤ item.1.level ∧ item.1.level ≤ superTeamRoleOwner)
    (h : items.foldlM (createSuperTeamInvitation pre inviterID inviterLevel) db = .ok db') :
      Aside db db' ∧ Invited db' := by
  induction items generalizing db with
  | nil =>
    cases h
    exact ⟨.refl _, hi⟩
  | cons item items ih =>
    rw [List.foldlM_cons] at h
    obtain ⟨db₁, hone, h⟩ := bind_ok.1 h
    obtain ⟨ha, hi₁⟩ := createSuperTeamInvitation_ok hi (hrange item List.mem_cons_self) hone
    obtain ⟨ha', hi'⟩ := ih hi₁ (fun item hitem => hrange item (List.mem_cons_of_mem _ hitem)) h
    exact ⟨ha.trans ha', hi'⟩

theorem createSuperTeamInvitations_ok {invitations : List (InvitationRequest × Cargo.UserMessage)} (hi : Invited db)
    (h : createSuperTeamInvitations text db invitations = .ok db') : Aside db db' ∧ Invited db' := by
  obtain ⟨-, h⟩ := require_bind_ok.1 h
  obtain ⟨⟨first, _⟩, -, h⟩ := bind_ok.1 h
  obtain ⟨pre, -, h⟩ := bind_ok.1 h
  obtain ⟨inviterID, -, h⟩ := bind_ok.1 h
  obtain ⟨items, hitems, h⟩ := bind_ok.1 h
  obtain ⟨-, -, h⟩ := bind_ok.1 h
  obtain ⟨-, -, h⟩ := bind_ok.1 h
  obtain ⟨inviterLevel, -, h⟩ := bind_ok.1 h
  obtain ⟨-, h⟩ := require_bind_ok.1 h
  exact foldlM_createSuperTeamInvitation_ok hi (checkInvitations_range hitems) h

theorem addMembers_ok {user : User} {pre : String} {users : List String} {level globalCreateLimit globalJoinLimit now : Int}
    {newID : String → String} (hi : Invited db) (hmanager : user.manager = false)
    (h : addMembers text db user pre users level globalCreateLimit globalJoinLimit now newID = .ok db') :
    Aside db db' ∧ Invited db' := by
  obtain ⟨-, h⟩ := require_bind_ok.1 h
  obtain ⟨pre, -, h⟩ := bind_ok.1 h
  rw [hmanager] at h
  obtain ⟨userID, -, h⟩ := bind_ok.1 h
  obtain ⟨roleLevel, -, h⟩ := bind_ok.1 h
  obtain ⟨-, h⟩ := require_bind_ok.1 h
  obtain ⟨invitations, -, h⟩ := bind_ok.1 h
  obtain ⟨-, h⟩ := require_bind_ok.1 h
  exact createSuperTeamInvitations_ok hi h

end Calls

/-! ### Runs -/

inductive Call
  | create (user : User) (team : Team) (globalCreateLimit globalJoinLimit : Int)
  | invite (user : User) (invitations : List (InvitationRequest × Cargo.UserMessage))
  | addMembers (user : User) (pre : String) (users : List String) (level globalCreateLimit globalJoinLimit now : Int)
      (newID : String → String)
  | respond (user : User) (id : String) (accept : Bool) (globalJoinLimit actedAt : Int)
  | setLevel (user : User) (pre target : String) (level : Int)
  | remove (user : User) (pre target : String) (actedAt : Int)
  | delete (user : User) (pre : String) (actedAt : Int)

namespace Call

def user : Call → User
  | create user .. | invite user _ | addMembers user .. | respond user .. | setLevel user .. | remove user ..
  | delete user .. => user

def run (text : Text) (db : DB) : Call → Except SuperTeamError DB
  | create user team globalCreateLimit globalJoinLimit =>
    createSuperTeam text db team user.username globalCreateLimit globalJoinLimit
  | invite _ invitations => createSuperTeamInvitations text db invitations
  | addMembers user pre users level globalCreateLimit globalJoinLimit now newID =>
    SuperTeam.addMembers text db user pre users level globalCreateLimit globalJoinLimit now newID
  | respond user id accept globalJoinLimit actedAt =>
    respondSuperTeamInvitation text db id user.username accept globalJoinLimit actedAt
  | setLevel user pre target level => setSuperTeamMemberLevel text db pre user.username target level user.manager
  | remove user pre target actedAt => removeSuperTeamMember text db pre user.username target user.manager actedAt
  | delete user pre actedAt => deleteSuperTeam text db pre user.username user.manager actedAt

/-- Who is behind a call: its user, or the inviter of the invitation that it answers. -/
def Behind (text : Text) (db : DB) (userID : String) : Call → Prop
  | respond user id _ _ _ => ∃ i ∈ db.invitations.rows, i.id = id ∧ i.inviterID = userID ∧
      userIDForExistingAccount text db user.username .invitationInvalid = .ok i.recipientID
  | c => userIDForExistingAccount text db c.user.username .permissionDenied = .ok userID

theorem effect {text : Text} {db db' : DB} {c : Call} (hi : Invited db) (hc : c.user.manager = false)
    (h : c.run text db = .ok db') : Effect db db' (fun u => c.Behind text db u) ∧ Invited db' := by
  cases c with
  | create user team globalCreateLimit globalJoinLimit => exact createSuperTeam_effect hi h
  | invite user invitations =>
    obtain ⟨ha, hi'⟩ := createSuperTeamInvitations_ok hi h
    exact ⟨.aside ha.teams ha.level, hi'⟩
  | addMembers user pre users level globalCreateLimit globalJoinLimit now newID =>
    obtain ⟨ha, hi'⟩ := addMembers_ok hi hc h
    exact ⟨.aside ha.teams ha.level, hi'⟩
  | respond user id accept globalJoinLimit actedAt => exact respondSuperTeamInvitation_effect hi h
  | setLevel user pre target level =>
    have hc : user.manager = false := hc
    rw [run, hc] at h
    exact setSuperTeamMemberLevel_effect hi h
  | remove user pre target actedAt =>
    have hc : user.manager = false := hc
    rw [run, hc] at h
    exact removeSuperTeamMember_effect hi h
  | delete user pre actedAt =>
    have hc : user.manager = false := hc
    rw [run, hc] at h
    exact deleteSuperTeam_effect hi h

end Call

/-- The states of the runs of users who are no managers; what the calls only read may change at any time. -/
inductive Reach (text : Text) : DB → Prop
  | initial (outside : Outside) : Reach text (DB.initial outside)
  | call {db db' : DB} (h : Reach text db) (c : Call) (hc : c.user.manager = false) (hrun : c.run text db = .ok db') :
    Reach text db'
  | outside {db : DB} (h : Reach text db) (o : Outside) : Reach text { db with outside := o }

/-- Every team has an owner, and every level is one of the four. -/
structure Sound (db : DB) : Prop where
  owned : ∀ t ∈ db.teams.rows, ∃ u, db.level? t.teamPrefix u = some superTeamRoleOwner
  range : ∀ p u l, db.level? p u = some l → superTeamRoleRead ≤ l ∧ l ≤ superTeamRoleOwner
  invited : Invited db

section Run
variable {text : Text} {db db' : DB}

theorem Changed.range {pre u : String} {l : Option Int} (h : Changed db db' pre u l)
    (hdb : ∀ p u l, db.level? p u = some l → superTeamRoleRead ≤ l ∧ l ≤ superTeamRoleOwner)
    (hl : ∀ k, l = some k → superTeamRoleRead ≤ k ∧ k ≤ superTeamRoleOwner) (p v : String) (k : Int)
    (hk : db'.level? p v = some k) : superTeamRoleRead ≤ k ∧ k ≤ superTeamRoleOwner := by
  by_cases hid : (p, v) = (pre, u)
  · obtain ⟨rfl, rfl⟩ := Prod.mk.inj hid
    exact hl k (h.level ▸ hk)
  · exact hdb p v k (h.other p v hid ▸ hk)

theorem Changed.owned {pre u p : String} {l : Option Int} (h : Changed db db' pre u l)
    (hdb : ∃ v, db.level? p v = some superTeamRoleOwner)
    (hl : p = pre → db.level? pre u = some superTeamRoleOwner → l ≠ some superTeamRoleOwner →
      ∃ v, v ≠ u ∧ db.level? pre v = some superTeamRoleOwner) :
    ∃ v, db'.level? p v = some superTeamRoleOwner := by
  obtain ⟨v, hv⟩ := hdb
  by_cases hid : (p, v) = (pre, u)
  · obtain ⟨rfl, rfl⟩ := Prod.mk.inj hid
    by_cases hlo : l = some superTeamRoleOwner
    · exact ⟨v, h.level.trans hlo⟩
    · obtain ⟨w, hne, hw⟩ := hl rfl hv hlo
      exact ⟨w, by rw [h.other p w fun hid => hne (Prod.mk.inj hid).2, hw]⟩
  · exact ⟨v, by rw [h.other p v hid, hv]⟩

theorem Sound.effect {behind : String → Prop} (hs : Sound db) (hi : Invited db') (h : Effect db db' behind) :
    Sound db' := by
  cases h with
  | aside hteams hlevel =>
    refine ⟨fun t ht => ?_, fun p v l hl => hs.range p v l (hlevel p v ▸ hl), hi⟩
    obtain ⟨v, hv⟩ := hs.owned t (hteams ▸ ht)
    exact ⟨v, by rw [hlevel, hv]⟩
  | created t owner hbehind hnew hteams hlevel =>
    refine ⟨fun t' ht' => ?_, hlevel.range hs.range fun k hk => ?_, hi⟩
    · rw [hteams] at ht'
      rcases List.mem_append.1 ht' with ht' | ht'
      · exact hlevel.owned (hs.owned t' ht') fun _ _ h => absurd rfl h
      · rw [List.mem_singleton.1 ht']
        exact ⟨owner, hlevel.level⟩
    · cases hk
      decide
  | joined pre u inviterID l inviterLevel hbehind hteams hinviter hauthority hrange hnone hlevel =>
    refine ⟨fun t ht => hlevel.owned (hs.owned t (hteams ▸ ht)) fun _ hu => ?_,
      hlevel.range hs.range fun k hk => ?_, hi⟩
    · rw [hnone] at hu
      cases hu
    · cases hk
      exact hrange
  | levelSet pre actorID u actorLevel current l hbehind hteams hactor hcurrent hauthority hrange hother hlevel =>
    refine ⟨fun t ht => hlevel.owned (hs.owned t (hteams ▸ ht)) fun _ hu hl => ?_,
      hlevel.range hs.range fun k hk => ?_, hi⟩
    · rw [hcurrent, Option.some.injEq] at hu
      exact hother hu (lt_of_le_of_ne hrange.2 fun h => hl (h ▸ rfl))
    · cases hk
      exact hrange
  | removed pre actorID u actorLevel current hbehind hteams hactor hcurrent hauthority hother hlevel =>
    refine ⟨fun t ht => hlevel.owned (hs.owned t (hteams ▸ ht)) fun _ hu _ => ?_, hlevel.range hs.range nofun, hi⟩
    rw [hcurrent, Option.some.injEq] at hu
    exact hother hu
  | deleted pre actorID actorLevel hbehind hteams hactor hauthority hlevel =>
    refine ⟨fun t ht => ?_, fun p v l hl => ?_, hi⟩
    · rw [hteams] at ht
      obtain ⟨ht, hne⟩ := List.mem_filter.1 ht
      obtain ⟨v, hv⟩ := hs.owned t ht
      exact ⟨v, by rw [hlevel, if_neg (by simpa using hne), hv]⟩
    · rw [hlevel] at hl
      split at hl
      · cases hl
      · exact hs.range p v l hl

theorem sound_reach (h : Reach text db) : Sound db := by
  induction h with
  | initial outside => exact ⟨nofun, fun p u l hl => (by simp [DB.level?, DB.initial, Table.find?] at hl), nofun⟩
  | call _ c hc hrun ih =>
    obtain ⟨heffect, hi⟩ := c.effect ih.invited hc hrun
    exact ih.effect hi heffect
  | outside _ o ih => exact ⟨ih.owned, ih.range, ih.invited⟩

theorem Effect.raised {behind : String → Prop} {p u : String} {l : Int} (hs : Sound db) (h : Effect db db' behind)
    (hnew : db'.level? p u = some l) (hl : superTeamRoleManage ≤ l) (hold : db.level? p u ≠ some l) :
    (∃ a, behind a ∧ db.level? p a = some superTeamRoleOwner) ∨
      behind u ∧ db.teams.find? p = none ∧ ∃ t, db'.teams.rows = db.teams.rows ++ [t] ∧ t.teamPrefix = p := by
  have howner : ∀ a k, db.level? p a = some k → superTeamRoleOwner ≤ k → db.level? p a = some superTeamRoleOwner :=
    fun a k ha hk => (le_antisymm hk (hs.range p a k ha).2) ▸ ha
  have hhere : ∀ {pre v : String} {k : Option Int}, Changed db db' pre v k → p = pre ∧ u = v ∧ k = some l := by
    intro pre v k hc
    by_cases hid : (p, u) = (pre, v)
    · obtain ⟨rfl, rfl⟩ := Prod.mk.inj hid
      exact ⟨rfl, rfl, hc.level.symm.trans hnew⟩
    · exact absurd ((hc.other p u hid).symm.trans hnew) hold
  cases h with
  | aside hteams hlevel => exact absurd ((hlevel p u).symm.trans hnew) hold
  | created t owner hbehind hnone hteams hlevel =>
    obtain ⟨rfl, rfl, -⟩ := hhere hlevel
    exact .inr ⟨hbehind, hnone, t, hteams, rfl⟩
  | joined pre v inviterID k inviterLevel hbehind hteams hinviter hauthority hrange hnone hlevel =>
    obtain ⟨rfl, rfl, hk⟩ := hhere hlevel
    cases hk
    exact .inl ⟨inviterID, hbehind, howner _ _ hinviter (hauthority.resolve_left (not_lt.2 hl))⟩
  | levelSet pre actorID v actorLevel current k hbehind hteams hactor hcurrent hauthority hrange hother hlevel =>
    obtain ⟨rfl, rfl, hk⟩ := hhere hlevel
    cases hk
    exact .inl ⟨actorID, hbehind, howner _ _ hactor (hauthority.resolve_right fun h => not_lt.2 hl h.2)⟩
  | removed pre actorID v actorLevel current hbehind hteams hactor hcurrent hauthority hother hlevel =>
    obtain ⟨-, -, hk⟩ := hhere hlevel
    cases hk
  | deleted pre actorID actorLevel hbehind hteams hactor hauthority hlevel =>
    rw [hlevel] at hnew
    split at hnew
    · cases hnew
    · exact absurd hnew hold

/-- Nobody but an owner of the team takes the levels T3 and T4 from another user. -/
theorem Effect.lowered {behind : String → Prop} {p u : String} {l : Int} (hs : Sound db) (h : Effect db db' behind)
    (hold : db.level? p u = some l) (hl : superTeamRoleManage ≤ l) (hnew : db'.level? p u ≠ some l) (hu : ¬ behind u) :
    ∃ a, behind a ∧ db.level? p a = some superTeamRoleOwner := by
  have howner : ∀ a k, db.level? p a = some k → superTeamRoleOwner ≤ k → db.level? p a = some superTeamRoleOwner :=
    fun a k ha hk => (le_antisymm hk (hs.range p a k ha).2) ▸ ha
  have hhere : ∀ {pre v : String} {k : Option Int}, Changed db db' pre v k → p = pre ∧ u = v := by
    intro pre v k hc
    by_cases hid : (p, u) = (pre, v)
    · exact Prod.mk.inj hid
    · exact absurd ((hc.other p u hid).trans hold) hnew
  cases h with
  | aside hteams hlevel => exact absurd ((hlevel p u).trans hold) hnew
  | created t owner hbehind hnone hteams hlevel =>
    obtain ⟨rfl, rfl⟩ := hhere hlevel
    exact absurd hbehind hu
  | joined pre v inviterID k inviterLevel hbehind hteams hinviter hauthority hrange hnone hlevel =>
    obtain ⟨rfl, rfl⟩ := hhere hlevel
    rw [hnone] at hold
    cases hold
  | levelSet pre actorID v actorLevel current k hbehind hteams hactor hcurrent hauthority hrange hother hlevel =>
    obtain ⟨rfl, rfl⟩ := hhere hlevel
    rw [hcurrent, Option.some.injEq] at hold
    exact ⟨actorID, hbehind, howner _ _ hactor (hauthority.resolve_right fun h => not_lt.2 hl (hold ▸ h.1))⟩
  | removed pre actorID v actorLevel current hbehind hteams hactor hcurrent hauthority hother hlevel =>
    obtain ⟨rfl, rfl⟩ := hhere hlevel
    rw [hcurrent, Option.some.injEq] at hold
    rcases hauthority with rfl | h | h
    · exact absurd hbehind hu
    · exact ⟨actorID, hbehind, howner _ _ hactor h⟩
    · exact absurd (hold ▸ h) (not_lt.2 hl)
  | deleted pre actorID actorLevel hbehind hteams hactor hauthority hlevel =>
    rw [hlevel] at hnew
    split at hnew
    · rename_i hp
      exact ⟨actorID, hbehind, howner _ _ (hp ▸ hactor) hauthority⟩
    · exact absurd hold hnew

/-- Over every run of users who are no managers each team has an owner, and in every call the levels T3 and T4 come
and go only by an owner of the team: an exception is the creator of a new team, and a user who leaves. -/
theorem superTeam_authority (h : Reach text db) :
    (∀ t ∈ db.teams.rows, ∃ u, db.level? t.teamPrefix u = some superTeamRoleOwner) ∧
    ∀ c : Call, c.user.manager = false → ∀ db', c.run text db = .ok db' → ∀ (p u : String) (l : Int),
      superTeamRoleManage ≤ l → (db'.level? p u = some l → db.level? p u ≠ some l →
        (∃ a, c.Behind text db a ∧ db.level? p a = some superTeamRoleOwner) ∨
          c.Behind text db u ∧ db.teams.find? p = none ∧ ∃ t, db'.teams.rows = db.teams.rows ++ [t] ∧
            t.teamPrefix = p) ∧ (db.level? p u = some l → db'.level? p u ≠ some l → ¬ c.Behind text db u →
        ∃ a, c.Behind text db a ∧ db.level? p a = some superTeamRoleOwner) := by
  have hs := sound_reach h
  refine ⟨hs.owned, fun c hc db' hrun p u l hl => ?_⟩
  obtain ⟨heffect, -⟩ := c.effect hs.invited hc hrun
  exact ⟨fun hnew hold => heffect.raised hs hnew hl hold, fun hold hnew hu => heffect.lowered hs hold hl hnew hu⟩

theorem Reach.calls {cs : List Call} (h : Reach text db) (hcs : ∀ c ∈ cs, c.user.manager = false)
    (hrun : cs.foldlM (fun db (c : Call) => c.run text db) db = .ok db') : Reach text db' := by
  induction cs generalizing db with
  | nil =>
    cases hrun
    exact h
  | cons c cs ih =>
    obtain ⟨next, hnext, hrun⟩ := bind_ok.1 hrun
    exact ih (h.call c (hcs c List.mem_cons_self) hnext) (fun c' hc' => hcs c' (List.mem_cons_of_mem _ hc')) hrun

/-! Two accounts: Alice creates a team and invites Bob, who accepts. -/

def plainText : Text := ⟨⟨id, id, fun _ => true, fun _ => ""⟩, fun a b => a == b, fun _ => false, some⟩

def twoAccounts : Outside :=
  ⟨⟨[⟨"1", "alice"⟩, ⟨"2", "bob"⟩], by decide⟩, fun name => if name = "alice" ∨
    name = "bob" then some false else none, .empty, fun _ => false, fun _ => false⟩

def createAndInvite : List Call :=
  [.create ⟨"alice", false⟩ ⟨"core", "Core", "", ⟨"", "", "", "", ""⟩, "", "", 1, 1⟩ 5 20,
    .addMembers ⟨"alice", false⟩ "core" ["bob"] 3 5 20 2 fun _ => "i"]

def joinCore : Call := .respond ⟨"bob", false⟩ "i" true 20 3

def invited : DB :=
  (createAndInvite.foldlM (fun db (c : Call) => c.run plainText db) (DB.initial twoAccounts)).toOption.getD
    (DB.initial twoAccounts)

def joined : DB := (joinCore.run plainText invited).toOption.getD invited

theorem superTeam_authority_join : Reach plainText invited ∧ joined.level? "core" "2" = some 3 ∧
    ((∃ a, joinCore.Behind plainText invited a ∧ invited.level? "core" a = some superTeamRoleOwner) ∨
      joinCore.Behind plainText invited "2" ∧ invited.teams.find? "core" = none ∧
        ∃ t, joined.teams.rows = invited.teams.rows ++ [t] ∧ t.teamPrefix = "core") := by
  have hinvited : Reach plainText invited := @Reach.calls plainText _ _ createAndInvite (.initial twoAccounts) (by decide)
    (ok_getD (by decide +kernel))
  have hjoined : joinCore.run plainText invited = .ok joined := ok_getD (by decide +kernel)
  have hlevel : joined.level? "core" "2" = some 3 := by decide +kernel
  refine ⟨hinvited, hlevel, ?_⟩
  exact ((superTeam_authority hinvited).2 joinCore rfl joined hjoined "core" "2" 3 (by decide)).1 hlevel (by decide +kernel)

end Run

end Renop.SuperTeam
