import Renop.ChunkManager

/-!
# What holds of the manager in every interleaving

A session leaves the map once; what takes it out is the only one to finish or to abort it through the manager.
-/

namespace Renop.Upload

open CallList GoMap

namespace Session

variable {s s' : Session}

/-- What does not come from the manager, as the manager sees it. -/
structure Direct (s s' : Session) : Prop where
  id : s'.id = s.id
  owner : s'.owner = s.owner
  inv : s.Inv → s'.Inv
  completions : ∀ {i : Nat} {c : Completion}, c.managed = true →
    (s'.completions[i]? = some c ↔ s.completions[i]? = some c)
  aborts : ∀ a ∈ s'.aborts, a.managed = true → ∃ b ∈ s.aborts, b.managed = true

theorem step_direct {a : SessionAct} (ha : a.direct s = true) (h : s.step a = some s') : Direct s s' := by
  obtain ⟨hid, howner, -⟩ := step_id_owner h
  refine ⟨hid, howner, fun hi => hi.step h, @fun i c hc => ?_, fun b hb hbm => ?_⟩
  · cases a with
    | write _ _ _ | claim _ | put _ _ | fail _ | settle _ =>
      obtain ⟨_, _, _, rfl⟩ := step_writes h trivial
      rfl
    | begin managed =>
      have hunmanaged : managed = false := by simpa [SessionAct.direct] using ha
      have happend : ∀ pc, (s.completions ++ [⟨managed, pc⟩])[i]? = some c ↔ s.completions[i]? = some c := by
        intro pc
        rw [getElem?_concat_eq_some, or_iff_left]
        rintro ⟨-, rfl⟩
        simp [hunmanaged] at hc
      simp only [step] at h
      split_ifs at h <;> obtain rfl := Option.some.inj h <;> exact happend _
    | check j =>
      simp only [step] at h
      split at h
      · rename_i managed hget
        have hunmanaged : managed = false := by simpa [SessionAct.direct, hget] using ha
        have hmodify : ∀ pc, (s.completions.modify j (Completion.enter pc))[i]? = some c ↔
            s.completions[i]? = some c := by
          intro pc
          rw [getElem?_modify_eq_some]
          constructor
          · rintro (⟨-, h⟩ | ⟨rfl, b, hb, rfl⟩)
            · exact h
            · rw [hget] at hb
              obtain rfl := Option.some.inj hb
              simp [Completion.enter, hunmanaged] at hc
          · intro hold
            refine .inl ⟨?_, hold⟩
            rintro rfl
            rw [hget] at hold
            obtain rfl := Option.some.inj hold
            simp [hunmanaged] at hc
        obtain rfl := Option.some.inj h
        unfold beginCompletion
        split_ifs <;> exact hmodify _
      · simp at h
    | abort managed =>
      obtain rfl := Option.some.inj h
      rfl
    | abortStep j =>
      simp only [step] at h
      split at h
      · split_ifs at h <;> obtain rfl := Option.some.inj h <;> rfl
      · obtain rfl := Option.some.inj h
        rfl
      · obtain rfl := Option.some.inj h
        rfl
      · obtain rfl := Option.some.inj h
        rfl
      · simp at h
    | markCompleted =>
      simp only [step] at h
      split_ifs at h
      obtain rfl := Option.some.inj h
      rfl
  · cases a with
    | write _ _ _ | claim _ | put _ _ | fail _ | settle _ =>
      obtain ⟨_, _, _, rfl⟩ := step_writes h trivial
      exact ⟨b, hb, hbm⟩
    | begin managed =>
      simp only [step] at h
      split_ifs at h <;> obtain rfl := Option.some.inj h <;> exact ⟨b, hb, hbm⟩
    | check j =>
      simp only [step] at h
      split at h
      · obtain rfl := Option.some.inj h
        unfold beginCompletion at hb
        split_ifs at hb <;> exact ⟨b, hb, hbm⟩
      · simp at h
    | abort managed =>
      have hunmanaged : managed = false := by simpa [SessionAct.direct] using ha
      obtain rfl := Option.some.inj h
      rcases List.mem_append.1 hb with hb | hb
      · exact ⟨b, hb, hbm⟩
      · obtain rfl := List.mem_singleton.1 hb
        simp [hunmanaged] at hbm
    | abortStep j =>
      have hmodify : ∀ pc, b ∈ s.aborts.modify j (Abort.enter pc) → ∃ d ∈ s.aborts, d.managed = true := by
        intro pc hb
        rcases mem_modify hb with hb | ⟨d, hd, rfl⟩
        · exact ⟨b, hb, hbm⟩
        · exact ⟨d, List.mem_of_getElem? hd, hbm⟩
      simp only [step] at h
      split at h
      · split_ifs at h <;> obtain rfl := Option.some.inj h <;> exact hmodify _ hb
      · obtain rfl := Option.some.inj h
        exact hmodify _ hb
      · obtain rfl := Option.some.inj h
        exact hmodify _ hb
      · obtain rfl := Option.some.inj h
        exact hmodify _ hb
      · simp at h
    | markCompleted =>
      simp only [step] at h
      split_ifs at h
      obtain rfl := Option.some.inj h
      exact ⟨b, hb, hbm⟩

/-- A session in which `Abort` is called by the manager, or not at all. -/
structure Called (s s' : Session) (called : Prop) : Prop where
  id : s'.id = s.id
  owner : s'.owner = s.owner
  inv : s.Inv → s'.Inv
  completions : s'.completions = s.completions
  aborts : ∀ a ∈ s'.aborts, a.managed = true → called ∨ ∃ b ∈ s.aborts, b.managed = true

theorem Called.refl (s : Session) (called : Prop) : Called s s called :=
  ⟨rfl, rfl, fun h => h, rfl, fun a ha hm => .inr ⟨a, ha, hm⟩⟩

theorem called_beginAbort (s : Session) : Called s s.beginAbort True :=
  ⟨rfl, rfl, fun hi => hi.step (a := .abort true) rfl, rfl, fun _ _ _ => .inl trivial⟩

end Session

theorem newSession_inv (id : String) (now : Int) (c : Creation) : (newSession id now c).Inv := by
  have hfree : ∀ (i : Nat) (slot : Slot), (newSession id now c).received[i]? = some slot → slot = .free := by
    intro i slot h
    exact List.eq_of_mem_replicate (List.mem_of_getElem? h)
  refine ⟨⟨⟨@fun a w h => ?_, @fun a b w v h => ?_, @fun i h => ?_⟩, List.length_replicate ..,
    List.length_replicate .., @fun w k h => ?_, @fun i h => ?_⟩, ⟨@fun a b c d h => ?_, @fun c h => ?_, @fun c h => ?_,
    @fun a b c d h => ?_⟩, ⟨fun a h => ?_, fun _ _ => ⟨rfl, rfl, rfl, rfl⟩⟩⟩
  · simp [newSession] at h
  · simp [newSession] at h
  · simpa using hfree i _ h
  · simp [newSession] at h
  · simpa using hfree i _ h
  · simp [newSession] at h
  · simp [newSession] at h
  · simp [newSession] at h
  · simp [newSession] at h
  · simp [newSession] at h

namespace Manager

variable {m m' : Manager}

/-- The map, and the room in it. -/
structure MapInv (m : Manager) : Prop where
  keyed : Keyed m.sessions
  objects : ∀ s ∈ m.objects, s.Inv ∧ s.owner ≠ ""
  entry : ∀ e ∈ m.sessions, ∃ s, m.objects[e.2]? = some s ∧ s.id = e.1
  ids : ∀ {a b : Nat} {s t : Session}, m.objects[a]? = some s → m.objects[b]? = some t → s.id = t.id → a = b
  out : ∀ t ∈ m.taken, t.1 < m.objects.length ∧ ∀ e ∈ m.sessions, e.2 ≠ t.1
  once : (m.taken.map Prod.fst).Nodup
  room : m.sessions.length + m.pending ≤ maxSessions
  pending : m.pending = m.creations.length
  owners : ∀ c ∈ m.creations, c.owner ≠ ""

structure Inv (m : Manager) : Prop extends MapInv m where
  aborts : ∀ {o : Nat} {s : Session}, m.objects[o]? = some s → ∀ a ∈ s.aborts, a.managed = true →
    ∃ t ∈ m.taken, t.1 = o ∧ t.2 ≠ .completion
  grants : ∀ {o : Nat} {s : Session}, m.objects[o]? = some s → ∀ c ∈ s.completions, c.managed = true →
    c.pc = .granted → (o, .completion) ∈ m.taken
  locked : ∀ l, m.lock = some l → (l.id, l.session) ∈ m.sessions ∧
    ∃ s, m.objects[l.session]? = some s ∧ s.completions[l.call]? = some ⟨true, .entered⟩

/-! ### The map -/

theorem MapInv.entry_eq (hi : MapInv m) {e e' : String × Nat} (he : e ∈ m.sessions) (he' : e' ∈ m.sessions)
    (h : e.2 = e'.2) : e = e' := by
  obtain ⟨s, hs, hid⟩ := hi.entry e he
  obtain ⟨t, ht, hid'⟩ := hi.entry e' he'
  rw [h, ht] at hs
  obtain rfl := Option.some.inj hs
  exact hi.keyed.eq he he' (hid.symm.trans hid')

theorem lookup_eq_some {id : String} {o : Nat} {s : Session} (h : m.lookup id = some (o, s)) :
    (id, o) ∈ m.sessions ∧ m.objects[o]? = some s := by
  simp only [lookup, Option.pure_def, Option.bind_eq_bind, Option.bind_eq_some_iff] at h
  obtain ⟨⟨key, o'⟩, hfind, s', hs, heq⟩ := h
  obtain ⟨rfl, rfl⟩ := Prod.mk.inj (Option.some.inj heq)
  obtain rfl : key = id := by simpa using List.find?_some hfind
  exact ⟨List.mem_of_find?_eq_some hfind, hs⟩

theorem MapInv.change (hi : MapInv m) {objects : List Session} (hlen : objects.length = m.objects.length)
    (hkin : ∀ {a : Nat} {s : Session}, objects[a]? = some s →
      ∃ t, m.objects[a]? = some t ∧ s.id = t.id ∧ s.owner = t.owner ∧ (t.Inv → s.Inv)) (lock : Option Completing) :
    MapInv { m with objects, lock } := by
  refine ⟨hi.keyed, fun s hs => ?_, fun e he => ?_, @fun a b s t ha hb h => ?_, fun t ht => ?_, hi.once, hi.room,
    hi.pending, hi.owners⟩
  · obtain ⟨a, ha⟩ := List.mem_iff_getElem?.1 hs
    obtain ⟨t, ht, -, howner, hinv⟩ := hkin ha
    obtain ⟨h₁, h₂⟩ := hi.objects t (List.mem_of_getElem? ht)
    exact ⟨hinv h₁, by rwa [howner]⟩
  · obtain ⟨t, ht, hid⟩ := hi.entry e he
    have hlt : e.2 < objects.length := by
      rw [hlen]
      exact (List.getElem?_eq_some_iff.1 ht).1
    refine ⟨objects[e.2], List.getElem?_eq_getElem hlt, ?_⟩
    obtain ⟨t', ht', hid', -⟩ := hkin (List.getElem?_eq_getElem hlt)
    rw [ht] at ht'
    obtain rfl := Option.some.inj ht'
    exact hid'.trans hid
  · obtain ⟨s', hs', hid, -⟩ := hkin ha
    obtain ⟨t', ht', hid', -⟩ := hkin hb
    exact hi.ids hs' ht' (by rw [← hid, ← hid', h])
  · show t.1 < objects.length ∧ _
    rw [hlen]
    exact hi.out t ht

theorem MapInv.take (hi : MapInv m) {sessions : List (String × Nat)} (hsub : sessions.Sublist m.sessions)
    {new : List (Nat × Taker)} (hnodup : (new.map Prod.fst).Nodup) (hfrom : ∀ t ∈ new, ∃ e ∈ m.sessions, e.2 = t.1)
    (hout : ∀ t ∈ new, ∀ e ∈ sessions, e.2 ≠ t.1) : MapInv { m with sessions, taken := m.taken ++ new } := by
  refine ⟨hi.keyed.sublist hsub, hi.objects, fun e he => hi.entry e (hsub.subset he), hi.ids, fun t ht => ?_, ?_, ?_,
    hi.pending, hi.owners⟩
  · rcases List.mem_append.1 ht with ht | ht
    · exact ⟨(hi.out t ht).1, fun e he => (hi.out t ht).2 e (hsub.subset he)⟩
    · obtain ⟨e, he, heq⟩ := hfrom t ht
      obtain ⟨s, hs, -⟩ := hi.entry e he
      exact ⟨by rw [← heq]; exact (List.getElem?_eq_some_iff.1 hs).1, hout t ht⟩
  · show ((m.taken ++ new).map Prod.fst).Nodup
    rw [List.map_append]
    refine List.nodup_append.2 ⟨hi.once, hnodup, fun a ha b hb hab => ?_⟩
    obtain ⟨t, ht, rfl⟩ := List.mem_map.1 ha
    obtain ⟨t', ht', rfl⟩ := List.mem_map.1 hb
    obtain ⟨e, he, heq⟩ := hfrom t' ht'
    exact (hi.out t ht).2 e he (heq.trans hab.symm)
  · have := hsub.length_le
    have := hi.room
    show sessions.length + m.pending ≤ maxSessions
    omega

theorem MapInv.takeOne (hi : MapInv m) {id : String} {o : Nat} (hmem : (id, o) ∈ m.sessions) (taker : Taker) :
    MapInv { m with sessions := drop id m.sessions, taken := m.taken ++ [(o, taker)] } := by
  refine hi.take (drop_sublist id _) (by simp) (fun t ht => ?_) fun t ht e he heq => ?_
  · obtain rfl := List.mem_singleton.1 ht
    exact ⟨_, hmem, rfl⟩
  · obtain rfl := List.mem_singleton.1 ht
    obtain ⟨he, hne⟩ := mem_drop.1 he
    exact hne (congrArg Prod.fst (hi.entry_eq he hmem heq))

theorem MapInv.reserve (hi : MapInv m) (c : Creation) (howner : c.owner ≠ "")
    (hroom : ¬maxSessions ≤ m.sessions.length + m.pending) :
    MapInv { m with pending := m.pending + 1, creations := m.creations ++ [c] } := by
  refine ⟨hi.keyed, hi.objects, hi.entry, hi.ids, hi.out, hi.once, ?_, ?_, fun d hd => ?_⟩
  · show m.sessions.length + (m.pending + 1) ≤ maxSessions
    omega
  · show m.pending + 1 = (m.creations ++ [c]).length
    rw [hi.pending, List.length_append, List.length_singleton]
  · rcases List.mem_append.1 hd with hd | hd
    · exact hi.owners d hd
    · obtain rfl := List.mem_singleton.1 hd
      exact howner

theorem MapInv.cancel (hi : MapInv m) {i : Nat} (hlt : i < m.creations.length) :
    MapInv { m with pending := m.pending - 1, creations := m.creations.eraseIdx i } := by
  have hroom := hi.room
  have hpending := hi.pending
  refine ⟨hi.keyed, hi.objects, hi.entry, hi.ids, hi.out, hi.once, ?_, ?_, fun c hc =>
    hi.owners c (List.mem_of_mem_eraseIdx hc)⟩
  · show m.sessions.length + (m.pending - 1) ≤ maxSessions
    omega
  · show m.pending - 1 = (m.creations.eraseIdx i).length
    rw [List.length_eraseIdx_of_lt hlt]
    omega

theorem MapInv.register (hi : MapInv m) {i : Nat} {c : Creation} (hc : m.creations[i]? = some c) {id : String} {now : Int}
    (hfresh : ∀ s ∈ m.objects, s.id ≠ id) :
    MapInv { m with
      pending := m.pending - 1
      creations := m.creations.eraseIdx i
      objects := m.objects ++ [newSession id now c]
      sessions := assign id m.objects.length m.sessions } := by
  have hlt := (List.getElem?_eq_some_iff.1 hc).1
  have hpending := hi.pending
  have hroom := hi.room
  have hid : ∀ {a : Nat} {s : Session}, m.objects[a]? = some s → s.id ≠ id := fun h => hfresh _ (List.mem_of_getElem? h)
  refine ⟨hi.keyed.assign _ _, fun s hs => ?_, fun e he => ?_, @fun a b s t ha hb h => ?_, fun t ht => ?_, hi.once, ?_, ?_,
    fun d hd => hi.owners d (List.mem_of_mem_eraseIdx hd)⟩
  · rcases List.mem_append.1 hs with hs | hs
    · exact hi.objects s hs
    · obtain rfl := List.mem_singleton.1 hs
      exact ⟨newSession_inv id now c, hi.owners c (List.mem_of_getElem? hc)⟩
  · rcases mem_assign.1 he with rfl | ⟨he, -⟩
    · exact ⟨_, getElem?_concat_eq_some.2 (.inr ⟨rfl, rfl⟩), rfl⟩
    · obtain ⟨s, hs, hse⟩ := hi.entry e he
      exact ⟨s, getElem?_concat_eq_some.2 (.inl hs), hse⟩
  · rcases getElem?_concat_eq_some.1 ha with ha | ⟨rfl, rfl⟩
    · rcases getElem?_concat_eq_some.1 hb with hb | ⟨rfl, rfl⟩
      · exact hi.ids ha hb h
      · exact absurd h (hid ha)
    · rcases getElem?_concat_eq_some.1 hb with hb | ⟨rfl, rfl⟩
      · exact absurd h.symm (hid hb)
      · rfl
  · obtain ⟨hlt, hout⟩ := hi.out t ht
    refine ⟨?_, fun e he => ?_⟩
    · show t.1 < (m.objects ++ [newSession id now c]).length
      rw [List.length_append]
      omega
    · rcases mem_assign.1 he with rfl | ⟨he, -⟩
      · exact Nat.ne_of_gt hlt
      · exact hout e he
  · have hdrop := length_drop_le id m.sessions
    show (assign id m.objects.length m.sessions).length + (m.pending - 1) ≤ maxSessions
    rw [length_assign]
    omega
  · show m.pending - 1 = (m.creations.eraseIdx i).length
    rw [List.length_eraseIdx_of_lt hlt]
    omega

/-! ### Every step -/

theorem Inv.reserve (hi : Inv m) (c : Creation) (howner : c.owner ≠ "")
    (hroom : ¬maxSessions ≤ m.sessions.length + m.pending) :
    Inv { m with pending := m.pending + 1, creations := m.creations ++ [c] } :=
  ⟨hi.toMapInv.reserve c howner hroom, hi.aborts, hi.grants, hi.locked⟩

theorem Inv.cancel (hi : Inv m) {i : Nat} (hlt : i < m.creations.length) :
    Inv { m with pending := m.pending - 1, creations := m.creations.eraseIdx i } :=
  ⟨hi.toMapInv.cancel hlt, hi.aborts, hi.grants, hi.locked⟩

theorem Inv.register (hi : Inv m) {i : Nat} {c : Creation} (hc : m.creations[i]? = some c) {id : String} {now : Int}
    (hlock : m.lock = none) (hfresh : ∀ s ∈ m.objects, s.id ≠ id) :
    Inv { m with
      pending := m.pending - 1
      creations := m.creations.eraseIdx i
      objects := m.objects ++ [newSession id now c]
      sessions := assign id m.objects.length m.sessions } := by
  refine ⟨hi.toMapInv.register hc hfresh, @fun o s ho a ha hm => ?_, @fun o s ho d hd hm hg => ?_, fun l hl => ?_⟩
  · rcases getElem?_concat_eq_some.1 ho with ho | ⟨-, rfl⟩
    · exact hi.aborts ho a ha hm
    · simp [newSession] at ha
  · rcases getElem?_concat_eq_some.1 ho with ho | ⟨-, rfl⟩
    · exact hi.grants ho d hd hm hg
    · simp [newSession] at hd
  · have hl' : m.lock = some l := hl
    rw [hlock] at hl'
    simp at hl'

section Set
variable {o : Nat} {s s' : Session}

theorem set_cases {a : Nat} {t : Session} (ha : (m.objects.set o s')[a]? = some t) :
    a ≠ o ∧ m.objects[a]? = some t ∨ a = o ∧ t = s' := by
  rcases getElem?_set_eq_some.1 ha with h | ⟨h, -, ht⟩
  · exact .inl h
  · exact .inr ⟨h, ht⟩

theorem MapInv.set (hi : MapInv m) (hs : m.objects[o]? = some s) (hid : s'.id = s.id) (howner : s'.owner = s.owner)
    (hinv : s.Inv → s'.Inv) (lock : Option Completing) : MapInv { m with objects := m.objects.set o s', lock } := by
  refine hi.change (List.length_set ..) (fun ha => ?_) lock
  rcases set_cases ha with ⟨-, ha⟩ | ⟨rfl, rfl⟩
  · exact ⟨_, ha, rfl, rfl, fun h => h⟩
  · exact ⟨s, hs, hid, howner, hinv⟩

theorem Inv.session (hi : Inv m) (hs : m.objects[o]? = some s) (hd : s.Direct s') :
    Inv { m with objects := m.objects.set o s' } := by
  refine ⟨hi.toMapInv.set hs hd.id hd.owner hd.inv m.lock, @fun p t hp a ha hm => ?_, @fun p t hp c hc hm hg => ?_,
    fun l hl => ?_⟩
  · rcases set_cases hp with ⟨-, hp⟩ | ⟨rfl, rfl⟩
    · exact hi.aborts hp a ha hm
    · obtain ⟨b, hb, hbm⟩ := hd.aborts a ha hm
      exact hi.aborts hs b hb hbm
  · rcases set_cases hp with ⟨-, hp⟩ | ⟨rfl, rfl⟩
    · exact hi.grants hp c hc hm hg
    · obtain ⟨i, hci⟩ := List.mem_iff_getElem?.1 hc
      exact hi.grants hs c (List.mem_of_getElem? ((hd.completions hm).1 hci)) hm hg
  · obtain ⟨hmem, t, ht, hc⟩ := hi.locked l hl
    refine ⟨hmem, ?_⟩
    by_cases hlo : l.session = o
    · rw [hlo, hs] at ht
      obtain rfl := Option.some.inj ht
      refine ⟨s', getElem?_set_eq_some.2 (.inr ⟨hlo, (List.getElem?_eq_some_iff.1 hs).1, rfl⟩),
        (hd.completions rfl).2 hc⟩
    · exact ⟨t, getElem?_set_eq_some.2 (.inl ⟨hlo, ht⟩), hc⟩

theorem Inv.beginSession (hi : Inv m) {id : String} (hmem : (id, o) ∈ m.sessions) (hs : m.objects[o]? = some s)
    (hstep : s.step (.begin true) = some s') :
    Inv { m with objects := m.objects.set o s', lock :=
      if s.done then none else some ⟨id, o, s.completions.length⟩ } := by
  obtain ⟨hid, howner, -⟩ := Session.step_id_owner hstep
  have haborts : s'.aborts = s.aborts := by
    simp only [Session.step] at hstep
    split_ifs at hstep <;> obtain rfl := Option.some.inj hstep <;> rfl
  have hcompletions : s'.completions = s.completions ++ [⟨true, if s.done then .finished else .entered⟩] := by
    simp only [Session.step] at hstep
    split_ifs at hstep with hd <;> obtain rfl := Option.some.inj hstep <;> simp [hd]
  refine ⟨hi.toMapInv.set hs hid howner (fun h => h.step hstep) _, @fun p t hp a ha hm => ?_, @fun p t hp c hc hm hg => ?_,
    fun l hl => ?_⟩
  · rcases set_cases hp with ⟨-, hp⟩ | ⟨rfl, rfl⟩
    · exact hi.aborts hp a ha hm
    · rw [haborts] at ha
      exact hi.aborts hs a ha hm
  · rcases set_cases hp with ⟨-, hp⟩ | ⟨rfl, rfl⟩
    · exact hi.grants hp c hc hm hg
    · rw [hcompletions] at hc
      rcases List.mem_append.1 hc with hc | hc
      · exact hi.grants hs c hc hm hg
      · obtain rfl := List.mem_singleton.1 hc
        cases hdone : s.done <;> simp [hdone] at hg
  · have hl' : (if s.done then none else some (⟨id, o, s.completions.length⟩ : Completing)) = some l := hl
    split_ifs at hl' with hdone
    obtain rfl := Option.some.inj hl'
    refine ⟨hmem, s', getElem?_set_eq_some.2 (.inr ⟨rfl, (List.getElem?_eq_some_iff.1 hs).1, rfl⟩), ?_⟩
    rw [hcompletions]
    exact getElem?_concat_eq_some.2 (.inr ⟨rfl, by simp [hdone]⟩)

theorem check_frame {i : Nat} (hstep : s.step (.check i) = some s') :
    s'.aborts = s.aborts ∧ ∃ pc, s'.completions = s.completions.modify i (Completion.enter pc) ∧ pc ≠ .entered := by
  simp only [Session.step] at hstep
  split at hstep
  · obtain rfl := Option.some.inj hstep
    unfold Session.beginCompletion
    split_ifs
    · exact ⟨rfl, .finished, rfl, by simp⟩
    · exact ⟨rfl, .granted, rfl, by simp⟩
    · exact ⟨rfl, .incomplete, rfl, by simp⟩
  · simp at hstep

theorem Inv.endSession (hi : Inv m) {l : Completing} (hl : m.lock = some l) (hs : m.objects[l.session]? = some s)
    (hstep : s.step (.check l.call) = some s') :
    Inv (if (s'.completions[l.call]?).any (·.pc = .granted) then
      { m with objects := m.objects.set l.session s', lock := none, sessions := drop l.id m.sessions, taken :=
        m.taken ++ [(l.session, .completion)] }
      else { m with objects := m.objects.set l.session s', lock := none }) := by
  obtain ⟨hid, howner, -⟩ := Session.step_id_owner hstep
  obtain ⟨haborts, pc, hcompletions, -⟩ := check_frame hstep
  obtain ⟨hmem, -⟩ := hi.locked l hl
  have hmap := hi.toMapInv.set hs hid howner (fun h => h.step hstep) none
  have habort : ∀ {p : Nat} {t : Session}, (m.objects.set l.session s')[p]? = some t → ∀ a ∈ t.aborts,
    a.managed = true → ∃ t ∈ m.taken, t.1 = p ∧ t.2 ≠ .completion := by
    intro p t hp a ha hm
    rcases set_cases hp with ⟨-, hp⟩ | ⟨rfl, rfl⟩
    · exact hi.aborts hp a ha hm
    · rw [haborts] at ha
      exact hi.aborts hs a ha hm
  -- whoever is granted now is the one that holds the lock
  have hgrant : ∀ {p : Nat} {t : Session}, (m.objects.set l.session s')[p]? = some t → ∀ c ∈ t.completions,
    c.managed = true → c.pc = .granted → (p, .completion) ∈ m.taken ∨ p = l.session ∧
        (s'.completions[l.call]?).any (·.pc = .granted) =
          true := by
    intro p t hp c hc hm hg
    rcases set_cases hp with ⟨-, hp⟩ | ⟨rfl, rfl⟩
    · exact .inl (hi.grants hp c hc hm hg)
    · obtain ⟨j, hj⟩ := List.mem_iff_getElem?.1 hc
      by_cases hjl : j = l.call
      · subst hjl
        exact .inr ⟨rfl, by simp [hj, hg]⟩
      · rw [hcompletions] at hj
        rcases getElem?_modify_eq_some.1 hj with ⟨-, hj⟩ | ⟨hj, -⟩
        · exact .inl (hi.grants hs c (List.mem_of_getElem? hj) hm hg)
        · exact absurd hj hjl
  split_ifs with hgranted
  · refine ⟨hmap.takeOne hmem .completion, @fun p t hp a ha hm => ?_, @fun p t hp c hc hm hg => ?_,
      fun l hl => by simp at hl⟩
    · obtain ⟨t, ht, h⟩ := habort hp a ha hm
      exact ⟨t, List.mem_append_left _ ht, h⟩
    · rcases hgrant hp c hc hm hg with h | ⟨rfl, -⟩
      · exact List.mem_append_left _ h
      · exact List.mem_append_right _ (List.mem_singleton.2 rfl)
  · refine ⟨hmap, habort, @fun p t hp c hc hm hg => ?_, fun l hl => by simp at hl⟩
    rcases hgrant hp c hc hm hg with h | ⟨-, h⟩
    · exact h
    · exact absurd h hgranted

end Set

/-! ### Sessions that are taken out and aborted -/

theorem grants_of_completions (hi : Inv m) {o : Nat} {s s' : Session} (hs : m.objects[o]? = some s)
    (h : s'.completions = s.completions) : ∀ c ∈ s'.completions, c.managed = true → c.pc = .granted →
      (o, .completion) ∈ m.taken := by
  rw [h]
  exact hi.grants hs

theorem Inv.abortOwned (hi : Inv m) {id : String} {o : Nat} {s : Session} (hlock : m.lock = none)
    (hmem : (id, o) ∈ m.sessions) (hs : m.objects[o]? = some s) :
    Inv { m with sessions := drop id m.sessions, objects := m.objects.set o s.beginAbort, taken :=
      m.taken ++ [(o, .abort)] } := by
  have hcalled := Session.called_beginAbort s
  have hmap := (hi.toMapInv.set hs hcalled.id hcalled.owner hcalled.inv m.lock).takeOne hmem .abort
  refine ⟨hmap, @fun p t hp a ha hm => ?_, @fun p t hp c hc hm hg => List.mem_append_left _ ?_, fun l hl => ?_⟩
  · rcases set_cases hp with ⟨-, hp⟩ | ⟨rfl, rfl⟩
    · obtain ⟨t, ht, h⟩ := hi.aborts hp a ha hm
      exact ⟨t, List.mem_append_left _ ht, h⟩
    · exact ⟨(p, .abort), List.mem_append_right _ (List.mem_singleton.2 rfl), rfl, by simp⟩
  · rcases set_cases hp with ⟨-, hp⟩ | ⟨rfl, rfl⟩
    · exact hi.grants hp c hc hm hg
    · exact grants_of_completions hi hs hcalled.completions c hc hm hg
  · have hl' : m.lock = some l := hl
    simp [hlock] at hl'

/-- `Abort` is called for every session that is gone. -/
def abortAll (gone : List (String × Nat)) (objects : List Session) : List Session :=
  gone.foldl (fun objects e => objects.modify e.2 Session.beginAbort) objects

theorem length_abortAll (gone : List (String × Nat)) (objects : List Session) :
    (abortAll gone objects).length = objects.length := by
  induction gone generalizing objects with
  | nil => rfl
  | cons e gone ih => exact (ih _).trans (List.length_modify ..)

theorem abortAll_called {gone : List (String × Nat)} {objects : List Session} {p : Nat} {t : Session}
    (h : (abortAll gone objects)[p]? = some t) : ∃ s, objects[p]? = some s ∧ s.Called t (∃ e ∈ gone, e.2 = p) := by
  induction gone generalizing objects with
  | nil => exact ⟨t, h, .refl t _⟩
  | cons e gone ih =>
    obtain ⟨s, hs, hcalled⟩ := ih h
    have hlater : ∀ {a : Session}, (∃ e ∈ gone, e.2 = p) ∨ (∃ b ∈ a.aborts, b.managed = true) →
        (∃ e' ∈ e :: gone, e'.2 = p) ∨ ∃ b ∈ a.aborts, b.managed = true := by
      rintro a (⟨e', he', hp⟩ | h)
      · exact .inl ⟨e', List.mem_cons_of_mem _ he', hp⟩
      · exact .inr h
    rcases getElem?_modify_eq_some.1 hs with ⟨-, hs⟩ | ⟨rfl, b, hb, rfl⟩
    · exact ⟨s, hs, hcalled.id, hcalled.owner, hcalled.inv, hcalled.completions, fun a ha hm =>
        hlater (hcalled.aborts a ha hm)⟩
    · have hb' := Session.called_beginAbort b
      refine ⟨b, hb, hcalled.id.trans hb'.id, hcalled.owner.trans hb'.owner, fun h => hcalled.inv (hb'.inv h),
        hcalled.completions.trans hb'.completions, fun _ _ _ => .inl ⟨e, List.mem_cons_self .., rfl⟩⟩

theorem Inv.cleanup (hi : Inv m) (hlock : m.lock = none) (now : Int) :
    Inv { m with
      sessions := m.sessions.filter fun e => !m.expired now e
      objects := abortAll (m.sessions.filter (m.expired now)) m.objects
      taken := m.taken ++ (m.sessions.filter (m.expired now)).map fun e => (e.2, .cleanup) } := by
  have hgone : ∀ {e : String × Nat}, e ∈ m.sessions.filter (m.expired now) → e ∈ m.sessions := fun he =>
    (List.mem_filter.1 he).1
  have hchange : MapInv { m with objects := abortAll (m.sessions.filter (m.expired now)) m.objects, lock := m.lock } := by
    refine hi.toMapInv.change (length_abortAll ..) (fun ha => ?_) m.lock
    obtain ⟨s, hs, hcalled⟩ := abortAll_called ha
    exact ⟨s, hs, hcalled.id, hcalled.owner, hcalled.inv⟩
  have hmap := @MapInv.take _ hchange (m.sessions.filter fun e => !m.expired now e) List.filter_sublist
    ((m.sessions.filter (m.expired now)).map fun e => (e.2, Taker.cleanup)) ?_ ?_ ?_
  · refine ⟨hmap, @fun p t hp a ha hm => ?_, @fun p t hp c hc hm hg => List.mem_append_left _ ?_, fun l hl => ?_⟩
    · obtain ⟨s, hs, hcalled⟩ := abortAll_called hp
      rcases hcalled.aborts a ha hm with ⟨e, he, rfl⟩ | ⟨b, hb, hbm⟩
      · exact ⟨(e.2, .cleanup), List.mem_append_right _ (List.mem_map.2 ⟨e, he, rfl⟩), rfl, by simp⟩
      · obtain ⟨t, ht, h⟩ := hi.aborts hs b hb hbm
        exact ⟨t, List.mem_append_left _ ht, h⟩
    · obtain ⟨s, hs, hcalled⟩ := abortAll_called hp
      exact grants_of_completions hi hs hcalled.completions c hc hm hg
    · have hl' : m.lock = some l := hl
      simp [hlock] at hl'
  · rw [List.map_map]
    refine List.Nodup.map_on (fun e he e' he' h => ?_) (hi.keyed.sublist List.filter_sublist).of_map
    exact hi.entry_eq (hgone he) (hgone he') h
  · intro t ht
    obtain ⟨e, he, rfl⟩ := List.mem_map.1 ht
    exact ⟨e, hgone he, rfl⟩
  · intro t ht e he heq
    obtain ⟨e', he', rfl⟩ := List.mem_map.1 ht
    obtain ⟨he, hnot⟩ := List.mem_filter.1 he
    obtain ⟨he', hexp⟩ := List.mem_filter.1 he'
    obtain rfl := hi.entry_eq he he' heq
    simp [hexp] at hnot

theorem Inv.step (hi : Inv m) {a : Act} (h : m.step a = some m') : Inv m' := by
  cases a with
  | reserve filename owner totalSize chunkSize =>
    simp only [Manager.step] at h
    split_ifs at h with hbad hcount hfull
    obtain rfl := Option.some.inj h
    simp only [not_or] at hbad hfull
    exact hi.reserve _ hbad.2.2 hfull.2
  | register i id now =>
    simp only [Manager.step] at h
    split at h
    · rename_i c hc
      split_ifs at h with hbad
      obtain rfl := Option.some.inj h
      simp only [not_or, not_not, List.any_eq_true, decide_eq_true_eq, not_exists, not_and] at hbad
      exact hi.register hc hbad.1 hbad.2
    · simp at h
  | cancel i =>
    simp only [Manager.step] at h
    split_ifs at h with hbad
    obtain rfl := Option.some.inj h
    simp only [not_or] at hbad
    exact hi.cancel (by omega)
  | session o a =>
    simp only [Manager.step] at h
    split at h
    · rename_i s hs
      split_ifs at h with hdirect
      obtain ⟨s', hs', rfl⟩ := Option.map_eq_some_iff.1 h
      exact hi.session hs (Session.step_direct hdirect hs')
    · simp at h
  | beginSessionCompletion id owner =>
    simp only [Manager.step] at h
    split_ifs at h with hlock
    split at h
    · rename_i o s hlookup
      split at h
      · obtain ⟨s', hs', rfl⟩ := Option.map_eq_some_iff.1 h
        obtain ⟨hmem, hs⟩ := lookup_eq_some hlookup
        exact hi.beginSession hmem hs hs'
      · simp at h
    · simp at h
  | endSessionCompletion =>
    simp only [Manager.step] at h
    split at h
    · rename_i id o i hl
      split at h
      · rename_i s hs
        obtain ⟨s', hs', rfl⟩ := Option.map_eq_some_iff.1 h
        exact hi.endSession hl hs hs'
      · simp at h
    · simp at h
  | abortOwned id owner =>
    simp only [Manager.step] at h
    split_ifs at h with hlock
    split at h
    · rename_i o s hlookup
      split_ifs at h with howner
      obtain rfl := Option.some.inj h
      obtain ⟨hmem, hs⟩ := lookup_eq_some hlookup
      exact hi.abortOwned (by simpa using hlock) hmem hs
    · simp at h
  | cleanupExpired now =>
    simp only [Manager.step] at h
    split_ifs at h with hlock
    obtain rfl := Option.some.inj h
    exact hi.cleanup (by simpa using hlock) now

theorem Inv.init : Inv Manager.init := by
  refine ⟨⟨Keyed.nil, ?_, ?_, ?_, ?_, ?_, ?_, rfl, ?_⟩, ?_, ?_, ?_⟩
  all_goals simp [Manager.init]

theorem Run.inv (h : Run m) : Inv m := by
  induction h with
  | init => exact Inv.init
  | step a _ h ih => exact ih.step h

end Manager

end Renop.Upload
