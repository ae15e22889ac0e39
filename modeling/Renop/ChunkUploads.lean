import Renop.ChunkManagerInv

/-!
# Completed uploads

What the manager grants: a file that holds the chunks, once, and against every abort.
-/

namespace Renop.Upload

open CallList GoMap

namespace Session

variable {s s' : Session}

/-! ## After a grant -/

def Granted (s : Session) : Prop := ∃ c ∈ s.completions, c.pc = .granted

theorem step_content {a : SessionAct} (h : s.step a = some s') (hnone : ∀ w ∈ s.writers, ¬w.Holds) :
    s'.content = s.content := by
  by_cases ha : a.Writes
  · cases a with
    | put i n =>
      simp only [step] at h
      split at h
      · rename_i hw
        exact absurd (.inl ⟨_, rfl⟩) (hnone _ (List.mem_of_getElem? hw))
      · simp at h
    | write index contentLength body =>
      obtain rfl := Option.some.inj h
      rfl
    | claim i =>
      simp only [step] at h
      split at h
      · split at h <;> obtain rfl := Option.some.inj h <;> rfl
      · simp at h
    | fail i =>
      simp only [step] at h
      split at h
      · obtain rfl := Option.some.inj h
        rfl
      · simp at h
    | settle i =>
      simp only [step] at h
      split at h
      · rename_i hw
        exact absurd (.inl ⟨_, rfl⟩) (hnone _ (List.mem_of_getElem? hw))
      · rename_i hw
        exact absurd (.inr rfl) (hnone _ (List.mem_of_getElem? hw))
      · simp at h
    | begin _ | check _ | abort _ | abortStep _ | markCompleted => exact ha.elim
  · obtain ⟨_, _, _, _, _, _, _, _, _, rfl⟩ := step_not_writes h ha
    rfl

theorem Granted.step {a : SessionAct} (hg : Granted s) (h : s.step a = some s') : Granted s' := by
  obtain ⟨c, hc, hpc⟩ := hg
  cases a with
  | write _ _ _ | claim _ | put _ _ | fail _ | settle _ =>
    obtain ⟨_, _, _, rfl⟩ := step_writes h trivial
    exact ⟨c, hc, hpc⟩
  | begin managed =>
    simp only [Session.step] at h
    split_ifs at h <;> obtain rfl := Option.some.inj h <;> exact ⟨c, List.mem_append_left _ hc, hpc⟩
  | check i =>
    simp only [Session.step] at h
    split at h
    · rename_i hget
      have hkeep : ∀ pc, c ∈ s.completions.modify i (Completion.enter pc) := by
        intro pc
        obtain ⟨j, hj⟩ := List.mem_iff_getElem?.1 hc
        refine List.mem_iff_getElem?.2 ⟨j, getElem?_modify_eq_some.2 (.inl ⟨?_, hj⟩)⟩
        rintro rfl
        rw [hget] at hj
        obtain rfl := Option.some.inj hj
        simp at hpc
      obtain rfl := Option.some.inj h
      unfold beginCompletion
      split_ifs <;> exact ⟨c, hkeep _, hpc⟩
    · simp at h
  | abort managed =>
    obtain rfl := Option.some.inj h
    exact ⟨c, hc, hpc⟩
  | abortStep i =>
    simp only [Session.step] at h
    split at h
    · split_ifs at h <;> obtain rfl := Option.some.inj h <;> exact ⟨c, hc, hpc⟩
    · obtain rfl := Option.some.inj h
      exact ⟨c, hc, hpc⟩
    · obtain rfl := Option.some.inj h
      exact ⟨c, hc, hpc⟩
    · obtain rfl := Option.some.inj h
      exact ⟨c, hc, hpc⟩
    · simp at h
  | markCompleted =>
    simp only [Session.step] at h
    split_ifs at h
    obtain rfl := Option.some.inj h
    exact ⟨c, hc, hpc⟩

theorem Granted.content (hg : Granted s) (hi : Inv s) {acts : List SessionAct} (h : Session.exec acts s = some s') :
    s'.content = s.content := by
  induction acts generalizing s with
  | nil =>
    obtain rfl := Option.some.inj h
    rfl
  | cons a acts ih =>
    obtain ⟨t, ht, h⟩ := Option.bind_eq_some_iff.1 h
    obtain ⟨c, hc, hpc⟩ := hg
    obtain ⟨-, -, -, -, hnone⟩ := hi.complete hc hpc
    exact (ih (Granted.step ⟨c, hc, hpc⟩ ht) (hi.step ht) h).trans (step_content ht hnone)

end Session

namespace Manager

variable {m m' m'' : Manager}

theorem exec_append {acts acts' : List Act} (h : exec acts m = some m') (h' : exec acts' m' = some m'') :
    exec (acts ++ acts') m = some m'' := by
  rw [exec, List.foldlM_append]
  exact Option.bind_eq_some_iff.2 ⟨m', h, h'⟩

theorem exec_cons {a : Act} {acts : List Act} (h : m.step a = some m') (h' : exec acts m' = some m'') :
    exec (a :: acts) m = some m'' := Option.bind_eq_some_iff.2 ⟨m', h, h'⟩

theorem Inv.exec (hi : Inv m) {acts : List Act} (h : exec acts m = some m') : Inv m' := by
  induction acts generalizing m with
  | nil =>
    obtain rfl := Option.some.inj h
    exact hi
  | cons a acts ih =>
    obtain ⟨n, hn, h⟩ := Option.bind_eq_some_iff.1 h
    exact ih (hi.step hn) h

theorem Run.exec (h : Run m) {acts : List Act} (he : exec acts m = some m') : Run m' := by
  induction acts generalizing m with
  | nil =>
    obtain rfl := Option.some.inj he
    exact h
  | cons a acts ih =>
    obtain ⟨n, hn, he⟩ := Option.bind_eq_some_iff.1 he
    exact ih (h.step a hn) he

/-! ## What happens to one session -/

variable {o : Nat} {s s' : Session}

/-- The session has made some steps. -/
def Goes (s s' : Session) : Prop := ∃ acts, Session.exec acts s = some s'

theorem goes_set {p : Nat} {t t' : Session} (hs : m.objects[o]? = some s) (ht : m.objects[p]? = some t) (hgoes : Goes t t') :
    ∃ s', (m.objects.set p t')[o]? = some s' ∧ Goes s s' := by
  by_cases hop : o = p
  · subst hop
    rw [ht] at hs
    obtain rfl := Option.some.inj hs
    exact ⟨t', getElem?_set_eq_some.2 (.inr ⟨rfl, (List.getElem?_eq_some_iff.1 ht).1, rfl⟩), hgoes⟩
  · exact ⟨s, getElem?_set_eq_some.2 (.inl ⟨hop, hs⟩), [], rfl⟩

theorem goes_abortAll {gone : List (String × Nat)} {objects : List Session} (hs : objects[o]? = some s) :
    ∃ s', (abortAll gone objects)[o]? = some s' ∧ Goes s s' := by
  induction gone generalizing objects s with
  | nil => exact ⟨s, hs, [], rfl⟩
  | cons e gone ih =>
    by_cases hoe : o = e.2
    · obtain ⟨s', hs', acts, hacts⟩ := ih (getElem?_modify_eq_some.2 (.inr ⟨hoe, s, hoe ▸ hs, rfl⟩) :
        (objects.modify e.2 Session.beginAbort)[o]? = some s.beginAbort)
      exact ⟨s', hs', .abort true :: acts, Session.exec_cons rfl hacts⟩
    · exact ih (getElem?_modify_eq_some.2 (.inl ⟨hoe, hs⟩))

theorem goes_step {a : Act} (h : m.step a = some m') (hs : m.objects[o]? = some s) :
    ∃ s', m'.objects[o]? = some s' ∧ Goes s s' := by
  have hstay : ∃ s', m.objects[o]? = some s' ∧ Goes s s' := ⟨s, hs, [], rfl⟩
  have hone : ∀ {t t' : Session} {b : SessionAct}, t.step b = some t' → Goes t t' :=
    fun h => ⟨[_], Session.exec_cons h rfl⟩
  cases a with
  | reserve filename owner totalSize chunkSize =>
    simp only [step] at h
    split_ifs at h
    obtain rfl := Option.some.inj h
    exact hstay
  | register i id now =>
    simp only [step] at h
    split at h
    · split_ifs at h
      obtain rfl := Option.some.inj h
      exact ⟨s, getElem?_concat_eq_some.2 (.inl hs), [], rfl⟩
    · simp at h
  | cancel i =>
    simp only [step] at h
    split_ifs at h
    obtain rfl := Option.some.inj h
    exact hstay
  | session p a =>
    simp only [step] at h
    split at h
    · rename_i ht
      split_ifs at h
      obtain ⟨t', ht', rfl⟩ := Option.map_eq_some_iff.1 h
      exact goes_set hs ht (hone ht')
    · simp at h
  | beginSessionCompletion id owner =>
    simp only [step] at h
    split_ifs at h
    split at h
    · rename_i hlookup
      split at h
      · obtain ⟨t', ht', rfl⟩ := Option.map_eq_some_iff.1 h
        exact goes_set hs (lookup_eq_some hlookup).2 (hone ht')
      · simp at h
    · simp at h
  | endSessionCompletion =>
    simp only [step] at h
    split at h
    · split at h
      · rename_i ht
        obtain ⟨t', ht', rfl⟩ := Option.map_eq_some_iff.1 h
        have hset := goes_set hs ht (hone ht')
        split_ifs <;> exact hset
      · simp at h
    · simp at h
  | abortOwned id owner =>
    simp only [step] at h
    split_ifs at h
    split at h
    · rename_i hlookup
      split_ifs at h
      obtain rfl := Option.some.inj h
      exact goes_set hs (lookup_eq_some hlookup).2 (hone (b := .abort true) rfl)
    · simp at h
  | cleanupExpired now =>
    simp only [step] at h
    split_ifs at h
    obtain rfl := Option.some.inj h
    exact goes_abortAll hs

theorem goes_exec {acts : List Act} (h : exec acts m = some m') (hs : m.objects[o]? = some s) :
    ∃ s', m'.objects[o]? = some s' ∧ Goes s s' := by
  induction acts generalizing m s with
  | nil =>
    obtain rfl := Option.some.inj h
    exact ⟨s, hs, [], rfl⟩
  | cons a acts ih =>
    obtain ⟨n, hn, h⟩ := Option.bind_eq_some_iff.1 h
    obtain ⟨t, ht, acts₁, h₁⟩ := goes_step hn hs
    obtain ⟨s', hs', acts₂, h₂⟩ := ih h ht
    exact ⟨s', hs', _, Session.exec_append h₁ h₂⟩

/-! ## The end of `BeginSessionCompletion` -/

/-- The section of the session ends the call that holds the lock. -/
structure Ends (m m' : Manager) (l : Completing) (s' : Session) (pc : CompletionPC) : Prop where
  lock : m.lock = some l
  step : m.step .endSessionCompletion = some m'
  session : m'.objects[l.session]? = some s'
  call : s'.completions[l.call]? = some ⟨true, pc⟩

theorem Ends.begun {l : Completing} {pc : CompletionPC} (he : Ends m m' l s' pc) (hi : Inv m) :
    ∃ s, s.Inv ∧ m.objects[l.session]? = some s ∧ s.completions[l.call]? = some ⟨true, .entered⟩ ∧
      s' = s.beginCompletion l.call ∧ m' = if pc = .granted then
          { m with
            objects := m.objects.set l.session s', lock := none, sessions := drop l.id m.sessions
            taken := m.taken ++ [(l.session, .completion)] }
        else { m with objects := m.objects.set l.session s', lock := none } := by
  obtain ⟨-, s, hs, hcall⟩ := hi.locked l he.lock
  have hlt := (List.getElem?_eq_some_iff.1 hs).1
  have hset : (m.objects.set l.session (s.beginCompletion l.call))[l.session]? = some (s.beginCompletion l.call) :=
    List.getElem?_set_self hlt
  have hstep := he.step
  simp only [Manager.step, he.lock, hs, Session.step, hcall, Option.map_some, Option.some.injEq] at hstep
  have hs' : s' = s.beginCompletion l.call := by
    have hsession := he.session
    rw [← hstep] at hsession
    split_ifs at hsession <;> exact Option.some.inj (hsession.symm.trans hset)
  subst hs'
  refine ⟨s, (hi.objects s (List.mem_of_getElem? hs)).1, hs, hcall, rfl, ?_⟩
  rw [← hstep, he.call]
  simp

theorem beginCompletion_cases {i : Nat} {c : Completion} (hc : s.completions[i]? = some c) :
    ∃ pc, (s.beginCompletion i).completions[i]? = some (c.enter pc) ∧
      (pc = .finished ∨ s.closed = false ∧ s.aborting = false ∧ ∃ done,
        s.beginCompletion i = { s with done := done, completions := s.completions.modify i (Completion.enter pc) } ∧
          (pc = .incomplete → done = false)) := by
  have hget : ∀ pc, (s.completions.modify i (Completion.enter pc))[i]? = some (c.enter pc) := fun pc =>
    getElem?_modify_eq_some.2 (.inr ⟨rfl, c, hc, rfl⟩)
  unfold Session.beginCompletion
  split_ifs with hclosed hall
  · exact ⟨_, hget _, .inl rfl⟩
  · simp only [Bool.or_eq_true, not_or, Bool.not_eq_true] at hclosed
    exact ⟨_, hget _, .inr ⟨hclosed.1, hclosed.2, s.done, rfl, by simp⟩⟩
  · simp only [Bool.or_eq_true, not_or, Bool.not_eq_true] at hclosed
    exact ⟨_, hget _, .inr ⟨hclosed.1, hclosed.2, false, rfl, fun _ => rfl⟩⟩

theorem Ends.present {l : Completing} (he : Ends m m' l s' .granted) (hi : Inv m) : s'.present = true := by
  obtain ⟨s, hs, -, hcall, rfl, -⟩ := he.begun hi
  obtain ⟨pc, hget, hpc⟩ := beginCompletion_cases hcall
  rw [he.call] at hget
  obtain rfl : .granted = pc := congrArg Completion.pc (Option.some.inj hget)
  rcases hpc with h | ⟨hclosed, haborting, done, heq, -⟩
  · simp at h
  · rw [heq]
    exact (hs.intact haborting hclosed).2.2.2

theorem Ends.refused {l : Completing} (he : Ends m m' l s' .incomplete) (hi : Inv m) :
    s'.Open ∧ m'.sessions = m.sessions ∧ m'.lock = none ∧ m'.taken = m.taken ∧
      ∃ s, m.objects[l.session]? = some s ∧ s'.received = s.received ∧ s'.content = s.content := by
  obtain ⟨s, -, hs, hcall, rfl, hm'⟩ := he.begun hi
  obtain ⟨pc, hget, hpc⟩ := beginCompletion_cases hcall
  rw [he.call] at hget
  obtain rfl : .incomplete = pc := congrArg Completion.pc (Option.some.inj hget)
  rw [if_neg (by simp)] at hm'
  rcases hpc with h | ⟨hclosed, haborting, done, heq, hdone⟩
  · simp at h
  · obtain rfl := hdone rfl
    rw [heq]
    subst hm'
    exact ⟨⟨rfl, hclosed, haborting⟩, rfl, rfl, rfl, s, hs, rfl, rfl⟩

/-! ## An open session can be completed -/

theorem lookup_of_mem (hi : Inv m) {id : String} (hmem : (id, o) ∈ m.sessions) (hs : m.objects[o]? = some s) :
    m.lookup id = some (o, s) := by
  have hfind : m.sessions.find? (fun e => e.1 = id) = some (id, o) := by
    cases hf : m.sessions.find? (fun e => e.1 = id) with
    | none =>
      have := List.find?_eq_none.1 hf (id, o) hmem
      simp at this
    | some e =>
      have hkey : e.1 = id := by simpa using List.find?_some hf
      exact congrArg some (hi.keyed.eq (List.mem_of_find?_eq_some hf) hmem hkey)
  simp [lookup, hfind, hs]

theorem exec_session {acts : List SessionAct} (h : Session.exec acts s = some s') (hacts : ∀ a ∈ acts, a.Writes)
    (hs : m.objects[o]? = some s) : exec (acts.map (.session o)) m = some { m with objects := m.objects.set o s' } := by
  induction acts generalizing m s with
  | nil =>
    obtain rfl := Option.some.inj h
    have hlt := (List.getElem?_eq_some_iff.1 hs).1
    have hset : m.objects.set o s = m.objects := by
      rw [← (List.getElem?_eq_some_iff.1 hs).2]
      exact List.set_getElem_self hlt
    rw [hset]
    rfl
  | cons a acts ih =>
    obtain ⟨t, ht, h⟩ := Option.bind_eq_some_iff.1 h
    have hdirect : a.direct s = true := by
      have := hacts a (List.mem_cons_self ..)
      cases a <;> first | rfl | exact this.elim
    have hstep : m.step (.session o a) = some { m with objects := m.objects.set o t } := by simp [step, hs, hdirect, ht]
    have hs' : (m.objects.set o t)[o]? = some t := List.getElem?_set_self (List.getElem?_eq_some_iff.1 hs).1
    have hrest := @ih { m with objects := m.objects.set o t } t h (fun b hb => hacts b (List.mem_cons_of_mem _ hb)) hs'
    rw [List.set_set] at hrest
    exact exec_cons hstep hrest

theorem complete_open (hi : Inv m) {id : String} (hlock : m.lock = none) (hmem : (id, o) ∈ m.sessions)
    (hs : m.objects[o]? = some s) (hopen : s.Open) :
    ∃ (acts : List SessionAct) (m' m'' : Manager) (s' : Session), (∀ a ∈ acts, a.Writes) ∧
      exec (acts.map (.session o) ++ [.beginSessionCompletion id s.owner]) m = some m' ∧
      Ends m' m'' ⟨id, o, s.completions.length⟩ s' .granted := by
  obtain ⟨hsinv, howner⟩ := hi.objects s (List.mem_of_getElem? hs)
  have hlt := (List.getElem?_eq_some_iff.1 hs).1
  obtain ⟨acts, t, ht, hacts, haside, hall⟩ := Session.fill_all hsinv hopen
  obtain ⟨hdone, hclosed, haborting⟩ := hopen.aside haside
  let m₁ : Manager := { m with objects := m.objects.set o t }
  have h₁ : exec (acts.map (.session o)) m = some m₁ := exec_session ht hacts hs
  have hrun₁ : m₁.objects[o]? = some t := List.getElem?_set_self hlt
  have hi₁ : Inv m₁ := hi.exec h₁
  have hlookup : m₁.lookup id = some (o, t) := lookup_of_mem hi₁ hmem hrun₁
  have howned : t.ownedBy s.owner = true := by simp [Session.ownedBy, haside.owner, howner]
  let t₁ : Session := { t with done := true, completions := t.completions ++ [⟨true, .entered⟩] }
  have hbegin : t.step (.begin true) = some t₁ := by simp [Session.step, hdone, t₁]
  let m₂ : Manager := { m₁ with objects := m₁.objects.set o t₁, lock := some ⟨id, o, t.completions.length⟩ }
  have h₂ : m₁.step (.beginSessionCompletion id s.owner) = some m₂ := by
    have hlock₁ : m₁.lock = none := hlock
    simp [step, hlock₁, hlookup, howned, hbegin, hdone, m₂]
  have hs₂ : m₂.objects[o]? = some t₁ := List.getElem?_set_self (by simpa [m₁] using hlt)
  have hcall : t₁.completions[t.completions.length]? = some ⟨true, .entered⟩ :=
    getElem?_concat_eq_some.2 (.inr ⟨rfl, rfl⟩)
  let t₂ := t₁.beginCompletion t.completions.length
  have ht₂ : t₂ = { t₁ with completions := t₁.completions.modify t.completions.length (Completion.enter .granted)
      } := by
    have hopen₁ : (t₁.closed || t₁.aborting) = false := by simp [t₁, hclosed, haborting]
    have hall₁ : t₁.received.all (· = .done) = true := by simpa [t₁] using hall
    simp [t₂, Session.beginCompletion, hopen₁, hall₁]
  have hgranted : t₂.completions[t.completions.length]? = some ⟨true, .granted⟩ := by
    rw [ht₂]
    exact getElem?_modify_eq_some.2 (.inr ⟨rfl, _, hcall, rfl⟩)
  let m₃ : Manager := { m₂ with
    objects := m₂.objects.set o t₂, lock := none, sessions := drop id m₂.sessions, taken :=
      m₂.taken ++ [(o, .completion)] }
  have h₃ : m₂.step .endSessionCompletion = some m₃ := by
    have hcheck : t₁.step (.check t.completions.length) = some t₂ := by simp [Session.step, hcall, t₂]
    have hl : m₂.lock = some ⟨id, o, t.completions.length⟩ := rfl
    simp [step, hl, hs₂, hcheck, hgranted, m₃]
  refine ⟨acts, m₂, m₃, t₂, hacts, exec_append h₁ (exec_cons h₂ rfl), ?_⟩
  rw [← haside.completions]
  exact ⟨rfl, h₃, List.getElem?_set_self (by simpa [m₂, m₁] using hlt), hgranted⟩

/-! ## Uploads over every run -/

/-- A chunk has one writer at a time, what is granted holds the chunks in order, and stays so. -/
theorem completed_upload_holds_chunks (h : Run m) :
    (∀ s ∈ m.objects, ∀ {a b : Nat} {w v : Writer}, s.writers[a]? = some w → s.writers[b]? = some v → w.Holds →
      v.Holds → a ≠ b → w.index ≠ v.index ∧
        (s.layout.offset w.index.toNat + s.layout.expected w.index.toNat ≤ s.layout.offset v.index.toNat ∨
          s.layout.offset v.index.toNat + s.layout.expected v.index.toNat ≤ s.layout.offset w.index.toNat)) ∧
    ∀ {l : Completing} {m' : Manager} {s' : Session}, Ends m m' l s' .granted →
      s'.present = true ∧
      (∃ bodies : Nat → List UInt8,
        (∀ i < s'.layout.chunkCount, ∃ w ∈ s'.writers, w.index = i ∧ w.pc = .finished ∧
          (bodies i).length = s'.layout.expected i ∧ bodies i = w.body.take (s'.layout.expected i)) ∧
        s'.content = (List.range s'.layout.chunkCount).flatMap bodies ∧ s'.content.length = s'.layout.totalSize ∧
        ∀ w ∈ s'.writers, ¬w.Holds) ∧
      ∀ {acts : List Act} {m'' : Manager}, exec acts m' = some m'' →
        ∃ s'', m''.objects[l.session]? = some s'' ∧ s''.content = s'.content := by
  have hi := h.inv
  refine ⟨fun s hs a b w v hw hv hh hh' hab => ?_, @fun l m' s' he => ⟨he.present hi, ?_, @fun acts m'' hacts => ?_⟩⟩
  · have hinv := (hi.objects s hs).1
    have hne : w.index ≠ v.index := fun heq => hab (hinv.unique hw hv hh hh' heq)
    refine ⟨hne, Layout.disjoint ?_⟩
    have := (hinv.holder hw hh).1
    have := (hinv.holder hv hh').1
    omega
  · have hinv := ((h.step _ he.step).inv.objects s' (List.mem_of_getElem? he.session)).1
    exact hinv.complete (List.mem_of_getElem? he.call) rfl
  · have hinv := ((h.step _ he.step).inv.objects s' (List.mem_of_getElem? he.session)).1
    obtain ⟨s'', hs'', acts', hexec⟩ := goes_exec hacts he.session
    exact ⟨s'', hs'', Session.Granted.content ⟨_, List.mem_of_getElem? he.call, rfl⟩ hinv hexec⟩

/-- One call takes a session out, one completion is granted, and then no abort of the manager runs; a refused completion can
be made up for; there is room. -/
theorem completion_excludes_abort (h : Run m) :
    (m.taken.map Prod.fst).Nodup ∧ (∀ t ∈ m.taken, ∀ e ∈ m.sessions, e.2 ≠ t.1) ∧
    (∀ s ∈ m.objects, ∀ {a b : Nat} {c d : Completion}, s.completions[a]? = some c → s.completions[b]? = some d →
      c.pc = .granted → d.pc = .granted → a = b) ∧
    (∀ s ∈ m.objects, (∃ c ∈ s.completions, c.managed = true ∧ c.pc = .granted) → ∀ a ∈ s.aborts,
      a.managed = false) ∧ (∀ {l : Completing} {m' : Manager} {s' : Session}, Ends m m' l s' .incomplete →
      m'.sessions = m.sessions ∧ m'.taken = m.taken ∧
      (∃ s, m.objects[l.session]? = some s ∧ s'.received = s.received ∧ s'.content = s.content) ∧
      ∃ (acts : List SessionAct) (m₁ m₂ : Manager) (s₂ : Session), (∀ a ∈ acts, a.Writes) ∧
        exec (acts.map (.session l.session) ++ [.beginSessionCompletion l.id s'.owner]) m' = some m₁ ∧
        Ends m₁ m₂ ⟨l.id, l.session, s'.completions.length⟩ s₂ .granted) ∧
    m.sessions.length + m.pending ≤ maxSessions := by
  have hi := h.inv
  refine ⟨hi.once, fun t ht => (hi.out t ht).2, fun s hs => ?_, fun s hs hg a ha => ?_, @fun l m' s' he => ?_, hi.room⟩
  · exact (hi.objects s hs).1.once
  · obtain ⟨o, ho⟩ := List.mem_iff_getElem?.1 hs
    obtain ⟨c, hc, hm, hpc⟩ := hg
    have hcompletion := hi.grants ho c hc hm hpc
    by_contra hmanaged
    obtain ⟨t, ht, hto, hne⟩ := hi.aborts ho a ha (by simpa using hmanaged)
    -- both have taken it out
    have heq : t = (o, .completion) := List.inj_on_of_nodup_map hi.once ht hcompletion hto
    exact hne (congrArg Prod.snd heq)
  · obtain ⟨hopen, hsessions, hlock, htaken, hsame⟩ := he.refused hi
    refine ⟨hsessions, htaken, hsame, ?_⟩
    have hmem := (hi.locked l he.lock).1
    rw [← hsessions] at hmem
    exact complete_open (hi.step he.step) hlock hmem he.session hopen

/-! Two callers send two chunks of a file at once. -/

def sendTwo (first : List UInt8) : List Act :=
  [.reserve "a.jar" "ann" 262145 262144, .register 0 "s1" 0, .session 0 (.write 0 262144 first), .session 0 (.write 1 1 [9]),
    .session 0 (.claim 1), .session 0 (.claim 0), .session 0 (.put 0 262143), .session 0 (.put 1 1), .session 0 (.put 0 1),
    .session 0 (.settle 0), .session 0 (.settle 1), .beginSessionCompletion "s1" "ann"]

theorem sendTwo_exec {first : List UInt8} (hfirst : first.length = 262144) : ∃ m, exec (sendTwo first) .init = some m ∧
    ∃ m' s', Ends m m' ⟨"s1", 0, 0⟩ s' .granted ∧ s'.layout = Layout.of 262145 262144 ∧
      s'.writers = [⟨0, 262144, first, .finished⟩, ⟨1, 1, [9], .finished⟩] := by
  have hcount : (Layout.of 262145 262144).chunkCount = 2 := by decide
  have hexpected₀ : (Layout.of 262145 262144).expected 0 = 262144 := by decide
  have hexpected₁ : (Layout.of 262145 262144).expected 1 = 1 := by decide
  have hoffset₀ : (Layout.of 262145 262144).offset 0 = 0 := by decide
  have hoffset₁ : (Layout.of 262145 262144).offset 1 = 262144 := by decide
  have hname : ¬maxUploadMetadataLength < ("a.jar" : String).utf8ByteSize := by decide
  generalize hl : Layout.of 262145 262144 = l at *
  simp [sendTwo, exec, step, init, newSession, Session.step, Session.claimChunk, Session.finishChunk, Session.put,
    Session.enterWriter, Session.ownedBy, Writer.enter, SessionAct.direct, assign, lookup, maxSessions, hl, hcount,
    hexpected₀, hexpected₁, hoffset₀, hoffset₁, hname, hfirst]
  exact ⟨_, _, ⟨rfl, rfl, rfl, rfl⟩, rfl, rfl⟩

theorem completed_upload_of_two_chunks :
    ∃ m m' s', Run m ∧ Ends m m' ⟨"s1", 0, 0⟩ s' .granted ∧ s'.content = List.replicate 262144 7 ++ [9] ∧
      ∀ {acts : List Act} {m'' : Manager}, exec acts m' = some m'' →
        ∃ s'', m''.objects[0]? = some s'' ∧ s''.content = List.replicate 262144 7 ++ [9] := by
  have hlength : (List.replicate 262144 (7 : UInt8)).length = 262144 := List.length_replicate
  obtain ⟨m, hexec, m', s', hends, hlayout, hwriters⟩ := sendTwo_exec hlength
  have hrun := Run.init.exec hexec
  obtain ⟨-, ⟨bodies, hbodies, hcontent, -, -⟩, hlater⟩ := (completed_upload_holds_chunks hrun).2 hends
  have hcount : s'.layout.chunkCount = 2 := by
    rw [hlayout]
    decide
  have hfirst : bodies 0 = List.replicate 262144 7 := by
    obtain ⟨w, hw, hindex, -, -, hbody⟩ := hbodies 0 (by omega)
    rw [hbody, hlayout]
    rw [hwriters, List.mem_pair] at hw
    rcases hw with rfl | rfl
    · exact List.take_of_length_le (by rw [List.length_replicate]; decide)
    · simp at hindex
  have hsecond : bodies 1 = [9] := by
    obtain ⟨w, hw, hindex, -, -, hbody⟩ := hbodies 1 (by omega)
    rw [hbody, hlayout]
    rw [hwriters, List.mem_pair] at hw
    rcases hw with rfl | rfl
    · simp at hindex
    · exact List.take_of_length_le (by decide)
  have hsame : s'.content = List.replicate 262144 7 ++ [9] := by
    rw [hcontent, hcount, ← hfirst, ← hsecond]
    simp [List.range_succ]
  refine ⟨m, m', s', hrun, hends, hsame, @fun acts m'' h => ?_⟩
  obtain ⟨s'', hs'', hs⟩ := hlater h
  exact ⟨s'', hs'', hs.trans hsame⟩

/-! A session of one chunk of four bytes is completed too early. -/

def sendFour : List Act :=
  [.reserve "a.jar" "ann" 4 0, .register 0 "s1" 0, .session 0 (.write 0 4 [1, 2, 3, 4]), .session 0 (.claim 0),
    .beginSessionCompletion "s1" "ann", .endSessionCompletion]

/-- After the first steps of it. -/
def sending (n : Nat) : Manager := (exec (sendFour.take n) .init).getD .init

def sendingFile (n : Nat) : Session := (sending n).objects.getD 0 (newSession "s1" 0 ⟨"a.jar", "ann", Layout.of 4 0⟩)

theorem completion_made_up_for : ((sending 6).taken.map Prod.fst).Nodup ∧
    ∃ (acts : List SessionAct) (m m' : Manager) (s : Session), (∀ a ∈ acts, a.Writes) ∧
      exec (acts.map (.session 0) ++ [.beginSessionCompletion "s1" "ann"]) (sending 6) = some m ∧
      Ends m m' ⟨"s1", 0, 1⟩ s .granted := by
  have hexec : exec (sendFour.take 5) .init = some (sending 5) := by decide
  have hrun := Run.init.exec hexec
  have hends : Ends (sending 5) (sending 6) ⟨"s1", 0, 0⟩ (sendingFile 6) .incomplete :=
    ⟨by decide, by decide, by decide, by decide⟩
  obtain ⟨-, -, -, -, hrefused, -⟩ := completion_excludes_abort hrun
  obtain ⟨-, -, -, hmade⟩ := hrefused hends
  exact ⟨by decide, hmade⟩

end Manager

end Renop.Upload
