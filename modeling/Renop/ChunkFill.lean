import Renop.ChunkSessionInv

/-!
# A session that is open can be completed

Whatever chunks are missing and whoever is writing: the writers under way may fail, the missing chunks can be sent, and then a
completion is granted.
-/

namespace Renop.Upload

open CallList

namespace Session

variable {s s' s'' : Session}

def exec (acts : List SessionAct) (s : Session) : Option Session := acts.foldlM step s

theorem exec_append {acts acts' : List SessionAct} (h : exec acts s = some s') (h' : exec acts' s' = some s'') :
    exec (acts ++ acts') s = some s'' := by
  rw [exec, List.foldlM_append]
  exact Option.bind_eq_some_iff.2 ⟨s', h, h'⟩

theorem exec_cons {a : SessionAct} {acts : List SessionAct} (h : s.step a = some s') (h' : exec acts s' = some s'') :
    exec (a :: acts) s = some s'' := Option.bind_eq_some_iff.2 ⟨s', h, h'⟩

theorem Inv.exec (hi : Inv s) {acts : List SessionAct} (h : exec acts s = some s') : Inv s' := by
  induction acts generalizing s with
  | nil =>
    obtain rfl := Option.some.inj h
    exact hi
  | cons a acts ih =>
    obtain ⟨t, ht, h⟩ := Option.bind_eq_some_iff.1 h
    exact ih (hi.step ht) h

/-- Chunks are still taken. -/
def Open (s : Session) : Prop := s.done = false ∧ s.closed = false ∧ s.aborting = false

/-- What writers leave alone. -/
structure Aside (s s' : Session) : Prop where
  id : s'.id = s.id
  owner : s'.owner = s.owner
  layout : s'.layout = s.layout
  done : s'.done = s.done
  closed : s'.closed = s.closed
  aborting : s'.aborting = s.aborting
  completions : s'.completions = s.completions

theorem Aside.refl (s : Session) : Aside s s := ⟨rfl, rfl, rfl, rfl, rfl, rfl, rfl⟩

theorem Aside.trans (h : Aside s s') (h' : Aside s' s'') : Aside s s'' :=
  ⟨h'.id.trans h.id, h'.owner.trans h.owner, h'.layout.trans h.layout, h'.done.trans h.done, h'.closed.trans h.closed,
    h'.aborting.trans h.aborting, h'.completions.trans h.completions⟩

theorem Open.aside (ho : Open s) (h : Aside s s') : Open s' :=
  ⟨h.done.trans ho.1, h.closed.trans ho.2.1, h.aborting.trans ho.2.2⟩

theorem claimChunk_of_free (ho : Open s) {i : Nat} (hlt : i < s.layout.chunkCount) (hfree : s.received[i]? = some .free) :
    s.claimChunk i (s.layout.expected i) = .ok () := by
  obtain ⟨-, hclosed, haborting⟩ := ho
  unfold claimChunk
  rw [if_neg (by simp [hclosed, haborting]), if_neg (by omega), if_neg (by omega)]
  simp [hfree]

/-- A chunk that nobody has sent. -/
theorem fill_free (hi : Inv s) (ho : Open s) {i : Nat} (hfree : s.received[i]? = some .free) :
    ∃ acts s', exec acts s = some s' ∧ (∀ a ∈ acts, a.Writes) ∧ Aside s s' ∧
      s'.received = s.received.set i .done := by
  have hlt : i < s.layout.chunkCount := by
    rw [← hi.slots]
    exact (List.getElem?_eq_some_iff.1 hfree).1
  have hhandle := (hi.intact ho.2.2 ho.2.1).2.2.1
  let w : Writer := ⟨i, s.layout.expected i, List.replicate (s.layout.expected i) 0, .checked⟩
  let n := s.writers.length
  let s₁ : Session := { s with writers := s.writers ++ [w] }
  let s₂ := (s₁.put i .writing).enterWriter n (.writing 0)
  have hw₁ : s₁.writers[n]? = some w := getElem?_concat_eq_some.2 (.inr ⟨rfl, rfl⟩)
  have hw₂ : s₂.writers[n]? = some (w.enter (.writing 0)) := getElem?_modify_eq_some.2 (.inr ⟨rfl, w, hw₁, rfl⟩)
  have h₁ : s.step (.write i (s.layout.expected i) (List.replicate (s.layout.expected i) 0)) = some s₁ := by
    simp [step, ho.1, s₁, w]
  have h₂ : s₁.step (.claim n) = some s₂ := by
    have hclaim : s₁.claimChunk i (s.layout.expected i) = .ok () := claimChunk_of_free (s := s₁) ho hlt hfree
    simp [step, hw₁, w, hclaim, s₂]
  let content := Slices.overwrite s₂.content (s₂.layout.offset i + 0) ((w.body.drop 0).take (s.layout.expected i))
  let s₃ : Session := { s₂ with content := content }.enterWriter n (.writing (0 + s.layout.expected i))
  have hw₃ : s₃.writers[n]? = some (w.enter (.writing (0 + s.layout.expected i))) :=
    getElem?_modify_eq_some.2 (.inr ⟨rfl, _, hw₂, rfl⟩)
  have h₃ : s₂.step (.put n (s.layout.expected i)) = some s₃ := by
    have hguard : s₂.handle = true ∧ 0 + s.layout.expected i ≤ s₂.layout.expected (i : Int).toNat ∧
        0 + s.layout.expected i ≤ w.body.length := ⟨hhandle, by rw [Nat.zero_add]; exact le_rfl, by simp [w]⟩
    simp only [step, hw₂, w, Writer.enter]
    exact if_pos hguard
  have haside₂ : Aside s s₂ := ⟨rfl, rfl, rfl, rfl, rfl, rfl, rfl⟩
  have haside₃ : Aside s s₃ := haside₂.trans ⟨rfl, rfl, rfl, rfl, rfl, rfl, rfl⟩
  have ho₃ : Open s₃ := ho.aside haside₃
  have hlayout₃ : s₃.layout = s.layout := rfl
  have h₄ : s₃.step (.settle n) = some ((s₃.put i .done).enterWriter n .finished) := by
    simp [step, hw₃, w, Writer.enter, hlayout₃, finishChunk, ho₃.2.1, ho₃.2.2]
  refine ⟨[_, _, _, _], _, exec_cons h₁ (exec_cons h₂ (exec_cons h₃ (exec_cons h₄ rfl))), ?_, ?_, ?_⟩
  · simp [SessionAct.Writes]
  · exact haside₃.trans ⟨rfl, rfl, rfl, rfl, rfl, rfl, rfl⟩
  · exact List.set_set ..

theorem free_writing (hi : Inv s) {i : Nat} (hwriting : s.received[i]? = some .writing) :
    ∃ acts s', exec acts s = some s' ∧ (∀ a ∈ acts, a.Writes) ∧ Aside s s' ∧
      s'.received = s.received.set i .free := by
  obtain ⟨n, ⟨index, contentLength, body, pc⟩, hw, hh, rfl⟩ := hi.claimed hwriting
  -- the release of the claim, once the writer has failed
  have hrelease : ∀ t : Session, t.received = s.received → Aside s t →
    t.writers[n]? = some ⟨i, contentLength, body, .failed⟩ →
      ∃ t', t.step (.settle n) = some t' ∧ Aside s t' ∧ t'.received = s.received.set i .free := by
    intro t hrec haside hget
    refine ⟨(t.put i .free).enterWriter n .refused, ?_, haside.trans ⟨rfl, rfl, rfl, rfl, rfl, rfl, rfl⟩, ?_⟩
    · simp [step, hget, releaseClaim, hrec, hwriting]
    · show t.received.set i .free = _
      rw [hrec]
  rcases hh with ⟨k, rfl⟩ | rfl
  · have hfail : s.step (.fail n) = some (s.enterWriter n .failed) := by simp [step, hw]
    obtain ⟨t, ht, haside, hrec⟩ := hrelease (s.enterWriter n .failed) rfl ⟨rfl, rfl, rfl, rfl, rfl, rfl, rfl⟩
      (getElem?_modify_eq_some.2 (.inr ⟨rfl, _, hw, rfl⟩))
    exact ⟨[_, _], t, exec_cons hfail (exec_cons ht rfl), by simp [SessionAct.Writes], haside, hrec⟩
  · obtain ⟨t, ht, haside, hrec⟩ := hrelease s rfl (.refl s) hw
    exact ⟨[_], t, exec_cons ht rfl, by simp [SessionAct.Writes], haside, hrec⟩

theorem fill (hi : Inv s) (ho : Open s) {i : Nat} (hlt : i < s.layout.chunkCount) :
    ∃ acts s', exec acts s = some s' ∧ (∀ a ∈ acts, a.Writes) ∧ Aside s s' ∧
      s'.received = s.received.set i .done := by
  have hlt' : i < s.received.length := by rwa [hi.slots]
  have hget : s.received[i]? = some s.received[i] := List.getElem?_eq_getElem hlt'
  cases hslot : s.received[i] with
  | free => exact fill_free hi ho (by rw [hget, hslot])
  | writing =>
    obtain ⟨acts, t, ht, hacts, haside, hrec⟩ := free_writing hi (by rw [hget, hslot])
    have hfree : t.received[i]? = some .free := by rw [hrec, List.getElem?_set_self hlt']
    obtain ⟨acts', t', ht', hacts', haside', hrec'⟩ := fill_free (hi.exec ht) (ho.aside haside) hfree
    refine ⟨acts ++ acts', t', exec_append ht ht', ?_, haside.trans haside', ?_⟩
    · intro a ha
      rcases List.mem_append.1 ha with ha | ha
      · exact hacts a ha
      · exact hacts' a ha
    · rw [hrec', hrec]
      exact List.set_set ..
  | done =>
    refine ⟨[], s, rfl, by simp, .refl s, ?_⟩
    rw [← hslot, List.set_getElem_self]

theorem fill_all (hi : Inv s) (ho : Open s) :
    ∃ acts s', exec acts s = some s' ∧ (∀ a ∈ acts, a.Writes) ∧ Aside s s' ∧ ∀ x ∈ s'.received,
      x = .done := by
  have hupto : ∀ n ≤ s.layout.chunkCount, ∃ acts s', exec acts s = some s' ∧ (∀ a ∈ acts, a.Writes) ∧
    Aside s s' ∧ ∀ i < n, s'.received[i]? = some .done := by
    intro n hn
    induction n with
    | zero => exact ⟨[], s, rfl, by simp, .refl s, by simp⟩
    | succ n ih =>
      obtain ⟨acts, t, ht, hacts, haside, hdone⟩ := ih (by omega)
      have hi' := hi.exec ht
      have hlt : n < t.layout.chunkCount := by
        rw [haside.layout]
        omega
      obtain ⟨acts', t', ht', hacts', haside', hrec⟩ := fill hi' (ho.aside haside) hlt
      refine ⟨acts ++ acts', t', exec_append ht ht', ?_, haside.trans haside', fun i hin => ?_⟩
      · intro a ha
        rcases List.mem_append.1 ha with ha | ha
        · exact hacts a ha
        · exact hacts' a ha
      · rw [hrec]
        by_cases hni : n = i
        · subst hni
          exact List.getElem?_set_self (by rwa [hi'.slots])
        · rw [List.getElem?_set_ne hni]
          exact hdone i (by omega)
  obtain ⟨acts, t, ht, hacts, haside, hdone⟩ := hupto _ le_rfl
  refine ⟨acts, t, ht, hacts, haside, fun x hx => ?_⟩
  obtain ⟨i, hix⟩ := List.mem_iff_getElem?.1 hx
  have hlt : i < s.layout.chunkCount := by
    have := (List.getElem?_eq_some_iff.1 hix).1
    rwa [(hi.exec ht).slots, haside.layout] at this
  rw [hdone i hlt] at hix
  exact (Option.some.inj hix).symm

end Session

end Renop.Upload
