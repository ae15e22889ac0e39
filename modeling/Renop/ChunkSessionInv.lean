import Renop.ChunkSession

/-!
# What holds of a session in every interleaving

A slot that is being written has one writer, and what that writer has written so far is in its region; a slot that is done was
written in full by a call that finished. From there a completion is granted at most once, and nothing is written after it.
-/

namespace Renop.Upload

open CallList Slices

/-- The writer has claimed its slot, and not yet given it back. -/
def Writer.Holds (w : Writer) : Prop := (∃ k, w.pc = .writing k) ∨ w.pc = .failed

namespace Session

variable {s s' : Session}

/-- The chunk `i` was written in full by a call that finished. -/
def Written (s : Session) (i : Nat) : Prop :=
  ∃ w ∈ s.writers, w.index = i ∧ w.pc = .finished ∧ s.layout.expected i ≤ w.body.length ∧
    slice s.content (s.layout.offset i) (s.layout.expected i) = w.body.take (s.layout.expected i)

/-- A slot that is being written is that of one writer. -/
structure Claims (s : Session) : Prop where
  holder : ∀ {a : Nat} {w : Writer}, s.writers[a]? = some w → w.Holds →
    w.index = w.index.toNat ∧ s.received[w.index.toNat]? = some .writing
  unique : ∀ {a b : Nat} {w v : Writer}, s.writers[a]? = some w → s.writers[b]? = some v → w.Holds → v.Holds →
    w.index = v.index → a = b
  claimed : ∀ {i : Nat}, s.received[i]? = some .writing → ∃ (a : Nat) (w : Writer), s.writers[a]? = some w ∧
    w.Holds ∧ w.index = i

structure WritersInv (s : Session) : Prop extends Claims s where
  slots : s.received.length = s.layout.chunkCount
  size : s.content.length = s.layout.totalSize
  progress : ∀ {w : Writer} {k : Nat}, w ∈ s.writers → w.pc = .writing k →
    k ≤ s.layout.expected w.index.toNat ∧ k ≤ w.body.length ∧
      slice s.content (s.layout.offset w.index.toNat) k = w.body.take k
  written : ∀ {i : Nat}, s.received[i]? = some .done → s.Written i

theorem WritersInv.congr (hi : WritersInv s) (hl : s'.layout = s.layout) (hr : s'.received = s.received)
    (hc : s'.content = s.content) (hw : s'.writers = s.writers) : WritersInv s' := by
  refine ⟨⟨?_, ?_, ?_⟩, ?_, ?_, ?_, ?_⟩ <;> simp only [Written, hl, hr, hc, hw]
  · exact hi.holder
  · exact hi.unique
  · exact hi.claimed
  · exact hi.slots
  · exact hi.size
  · exact hi.progress
  · exact hi.written

/-! ### Writers that hold nothing -/

theorem WritersInv.append (hi : WritersInv s) {w : Writer} (hw : w.pc = .checked ∨ w.pc = .refused) :
    WritersInv { s with writers := s.writers ++ [w] } := by
  have hnot : ¬w.Holds := by
    rintro (⟨k, hk⟩ | hk) <;> rw [hk] at hw <;> simp at hw
  refine ⟨⟨fun ha hh => ?_, fun ha hb hh hh' heq => ?_, fun hr => ?_⟩, hi.slots, hi.size, fun hmem hpc => ?_,
    fun hr => ?_⟩
  · rcases getElem?_concat_eq_some.1 ha with ha | ⟨-, rfl⟩
    · exact hi.holder ha hh
    · exact absurd hh hnot
  · rcases getElem?_concat_eq_some.1 ha with ha | ⟨-, rfl⟩
    · rcases getElem?_concat_eq_some.1 hb with hb | ⟨-, rfl⟩
      · exact hi.unique ha hb hh hh' heq
      · exact absurd hh' hnot
    · exact absurd hh hnot
  · obtain ⟨a, v, hv, hh, hidx⟩ := hi.claimed hr
    exact ⟨a, v, getElem?_concat_eq_some.2 (.inl hv), hh, hidx⟩
  · rcases List.mem_append.1 hmem with hmem | hmem
    · exact hi.progress hmem hpc
    · obtain rfl := List.mem_singleton.1 hmem
      exact absurd (.inl ⟨_, hpc⟩) hnot
  · obtain ⟨v, hv, hrest⟩ := hi.written hr
    exact ⟨v, List.mem_append_left _ hv, hrest⟩

theorem getElem?_enterWriter {i a : Nat} {pc : WriterPC} {w : Writer} :
    (s.enterWriter i pc).writers[a]? = some w ↔ a ≠ i ∧ s.writers[a]? = some w ∨ a = i ∧ ∃ b,
      s.writers[i]? = some b ∧
      w = b.enter pc :=
  getElem?_modify_eq_some

theorem enter_cases {i a : Nat} {pc : WriterPC} {w v : Writer} (hw : s.writers[i]? = some w)
    (hv : (s.enterWriter i pc).writers[a]? = some v) : a ≠ i ∧ s.writers[a]? = some v ∨ a = i ∧ v = w.enter pc := by
  rcases getElem?_enterWriter.1 hv with h | ⟨rfl, b, hb, rfl⟩
  · exact .inl h
  · have hbw : some b = some w := hb.symm.trans hw
    obtain rfl := Option.some.inj hbw
    exact .inr ⟨rfl, rfl⟩

theorem Written.enterWriter {i j : Nat} {pc : WriterPC} {w : Writer} (hw : s.writers[j]? = some w) (hpc : w.pc ≠ .finished)
    (h : s.Written i) : (s.enterWriter j pc).Written i := by
  obtain ⟨v, hv, hidx, hfin, hrest⟩ := h
  obtain ⟨a, ha⟩ := List.mem_iff_getElem?.1 hv
  refine ⟨v, List.mem_iff_getElem?.2 ⟨a, getElem?_enterWriter.2 (.inl ⟨?_, ha⟩)⟩, hidx, hfin, hrest⟩
  rintro rfl
  rw [hw] at ha
  obtain rfl := Option.some.inj ha
  exact hpc hfin

theorem WritersInv.idle (hi : WritersInv s) {i : Nat} {w : Writer} (hw : s.writers[i]? = some w) (hpc : w.pc = .checked)
    {pc : WriterPC} (hpc' : pc = .refused ∨ pc = .alreadyDone) : WritersInv (s.enterWriter i pc) := by
  have hnot : ¬(w.enter pc).Holds := by
    rintro (⟨k, hk⟩ | hk) <;> rcases hpc' with rfl | rfl <;> simp [Writer.enter] at hk
  have hnew : ∀ {a : Nat} {v : Writer}, (s.enterWriter i pc).writers[a]? = some v → v.Holds →
      s.writers[a]? = some v := by
    intro a v hv hh
    rcases enter_cases hw hv with ⟨-, hv⟩ | ⟨-, rfl⟩
    · exact hv
    · exact absurd hh hnot
  refine ⟨⟨fun ha hh => hi.holder (hnew ha hh) hh, fun ha hb hh hh' => hi.unique (hnew ha hh) (hnew hb hh') hh hh',
    fun hr => ?_⟩, hi.slots, hi.size, fun hmem hk => ?_, fun hr => ?_⟩
  · obtain ⟨a, v, hv, hh, hidx⟩ := hi.claimed hr
    refine ⟨a, v, getElem?_enterWriter.2 (.inl ⟨?_, hv⟩), hh, hidx⟩
    rintro rfl
    rw [hw] at hv
    obtain rfl := Option.some.inj hv
    simp [Writer.Holds, hpc] at hh
  · obtain ⟨a, ha⟩ := List.mem_iff_getElem?.1 hmem
    exact hi.progress (List.mem_of_getElem? (hnew ha (.inl ⟨_, hk⟩))) hk
  · exact (hi.written hr).enterWriter hw (by simp [hpc])

theorem getElem?_put {i j : Nat} {slot slot' : Slot} (hlt : i < s.received.length)
    (h : (s.put i slot).received[j]? = some slot') :
    j = i ∧ slot' = slot ∨ j ≠ i ∧ s.received[j]? = some slot' := by
  by_cases hj : i = j
  · subst hj
    rw [show (s.put i slot).received = s.received.set i slot from rfl, List.getElem?_set_self hlt] at h
    exact .inl ⟨rfl, (Option.some.inj h).symm⟩
  · rw [show (s.put i slot).received = s.received.set i slot from rfl, List.getElem?_set_ne hj] at h
    exact .inr ⟨Ne.symm hj, h⟩

/-! ### A claim -/

theorem claimChunk_ok {index contentLength : Int} (h : s.claimChunk index contentLength = .ok ())
    (hslots : s.received.length = s.layout.chunkCount) :
    s.closed = false ∧ s.aborting = false ∧ index = index.toNat ∧ s.received[index.toNat]? = some .free := by
  unfold claimChunk at h
  split_ifs at h with hclosed hindex hempty
  simp only [Bool.or_eq_true, not_or, Bool.not_eq_true] at hclosed
  have hlt : index.toNat < s.received.length := by
    rw [hslots]
    omega
  refine ⟨hclosed.1, hclosed.2, by omega, ?_⟩
  rw [List.getD_eq_getElem?_getD, List.getElem?_eq_getElem hlt, Option.getD_some] at h
  rw [List.getElem?_eq_getElem hlt]
  cases hslot : s.received[index.toNat] with
  | free => rfl
  | writing => rw [hslot] at h; simp at h
  | done => rw [hslot] at h; simp at h

theorem WritersInv.claim (hi : WritersInv s) {i : Nat} {w : Writer} (hw : s.writers[i]? = some w) (hpc : w.pc = .checked)
    (hidx : w.index = w.index.toNat) (hfree : s.received[w.index.toNat]? = some .free) :
    WritersInv ((s.put w.index.toNat .writing).enterWriter i (.writing 0)) := by
  have hlt : w.index.toNat < s.received.length := (List.getElem?_eq_some_iff.1 hfree).1
  -- nobody else holds the slot, which was free
  have hother : ∀ {a : Nat} {v : Writer}, s.writers[a]? = some v → v.Holds → v.index ≠ w.index := by
    intro a v hv hh heq
    have := (hi.holder hv hh).2
    rw [heq, hfree] at this
    simp at this
  have hw' : (s.put w.index.toNat .writing).writers[i]? = some w := hw
  refine ⟨⟨@fun a v ha hh => ?_, @fun a b v u ha hb hh hh' heq => ?_, fun hr =>
    ?_⟩, by simpa [enterWriter, put] using hi.slots, hi.size, fun hmem hk => ?_, fun hr => ?_⟩
  · rcases enter_cases hw' ha with ⟨-, hold⟩ | ⟨-, rfl⟩
    · obtain ⟨hnat, hwriting⟩ := hi.holder hold hh
      have hne : w.index.toNat ≠ v.index.toNat := fun h => hother hold hh (by omega)
      exact ⟨hnat, (List.getElem?_set_ne hne).trans hwriting⟩
    · exact ⟨hidx, List.getElem?_set_self hlt⟩
  · rcases enter_cases hw' ha with ⟨-, hold⟩ | ⟨hai, rfl⟩
    · rcases enter_cases hw' hb with ⟨-, hold'⟩ | ⟨-, rfl⟩
      · exact hi.unique hold hold' hh hh' heq
      · exact absurd heq (hother hold hh)
    · rcases enter_cases hw' hb with ⟨-, hold'⟩ | ⟨hbi, -⟩
      · exact absurd heq.symm (hother hold' hh')
      · exact hai.trans hbi.symm
  · rcases getElem?_put hlt hr with ⟨rfl, -⟩ | ⟨-, hr⟩
    · exact ⟨i, w.enter (.writing 0), getElem?_enterWriter.2 (.inr ⟨rfl, w, hw, rfl⟩), .inl ⟨0, rfl⟩, hidx⟩
    · obtain ⟨a, v, hv, hh, hvidx⟩ := hi.claimed hr
      refine ⟨a, v, getElem?_enterWriter.2 (.inl ⟨?_, hv⟩), hh, hvidx⟩
      rintro rfl
      rw [hw] at hv
      obtain rfl := Option.some.inj hv
      simp [Writer.Holds, hpc] at hh
  · obtain ⟨a, ha⟩ := List.mem_iff_getElem?.1 hmem
    rcases enter_cases hw' ha with ⟨-, ha⟩ | ⟨-, rfl⟩
    · exact hi.progress (List.mem_of_getElem? ha) hk
    · obtain rfl : 0 = _ := WriterPC.writing.inj hk
      exact ⟨Nat.zero_le _, Nat.zero_le _, by simp [slice]⟩
  · rcases getElem?_put hlt hr with ⟨-, h⟩ | ⟨-, hr⟩
    · simp at h
    · exact @Written.enterWriter _ _ i (.writing 0) _ hw (by simp [hpc]) (hi.written hr)

/-! ### The bytes -/

theorem WritersInv.index_lt (hi : WritersInv s) {i : Nat} {w : Writer} (hw : s.writers[i]? = some w) (hh : w.Holds) :
    w.index.toNat < s.layout.chunkCount := by
  rw [← hi.slots]
  exact (List.getElem?_eq_some_iff.1 (hi.holder hw hh).2).1

theorem Claims.keep (hi : Claims s) {i : Nat} {pc : WriterPC} {w : Writer} (hw : s.writers[i]? = some w) (hh : w.Holds)
    (hh' : (w.enter pc).Holds) : Claims (s.enterWriter i pc) := by
  have hsame : ∀ {a : Nat} {v : Writer}, (s.enterWriter i pc).writers[a]? = some v → v.Holds →
      ∃ u, s.writers[a]? = some u ∧ u.Holds ∧ u.index = v.index := by
    intro a v hv hvh
    rcases enter_cases hw hv with ⟨-, hv⟩ | ⟨rfl, rfl⟩
    · exact ⟨v, hv, hvh, rfl⟩
    · exact ⟨w, hw, hh, rfl⟩
  refine ⟨@fun a v ha hv => ?_, @fun a b v u ha hb hv hu heq => ?_, fun hr => ?_⟩
  · obtain ⟨u, hu, huh, hidx⟩ := hsame ha hv
    rw [← hidx]
    exact hi.holder hu huh
  · obtain ⟨v', hv', hvh, hvidx⟩ := hsame ha hv
    obtain ⟨u', hu', huh, huidx⟩ := hsame hb hu
    exact hi.unique hv' hu' hvh huh (by rw [hvidx, huidx, heq])
  · obtain ⟨a, v, hv, hvh, hidx⟩ := hi.claimed hr
    by_cases hai : a = i
    · subst hai
      rw [hw] at hv
      obtain rfl := Option.some.inj hv
      exact ⟨a, w.enter pc, getElem?_enterWriter.2 (.inr ⟨rfl, w, hw, rfl⟩), hh', hidx⟩
    · exact ⟨a, v, getElem?_enterWriter.2 (.inl ⟨hai, hv⟩), hvh, hidx⟩

theorem Claims.congr (hi : Claims s) (hr : s'.received = s.received) (hw : s'.writers = s.writers) : Claims s' := by
  constructor <;> simp only [hr, hw]
  · exact hi.holder
  · exact hi.unique
  · exact hi.claimed

theorem WritersInv.write (hi : WritersInv s) {i k n : Nat} {w : Writer} (hw : s.writers[i]? = some w)
    (hpc : w.pc = .writing k) (hexp : k + n ≤ s.layout.expected w.index.toNat) (hbody : k + n ≤ w.body.length) :
    WritersInv ({ s with content := overwrite s.content (s.layout.offset w.index.toNat + k) ((w.body.drop k).take n)
      }.enterWriter i (.writing (k + n))) := by
  have hh : w.Holds := .inl ⟨k, hpc⟩
  have hregion := Layout.offset_add_expected_le (hi.index_lt hw hh)
  have hpiece : ((w.body.drop k).take n).length = n := by
    rw [List.length_take, List.length_drop]
    omega
  have hfits : s.layout.offset w.index.toNat + k + ((w.body.drop k).take n).length ≤ s.content.length := by
    rw [hpiece, hi.size]
    omega
  -- the other regions are as they were
  have hother : ∀ j m, j ≠ w.index.toNat → m ≤ s.layout.expected j →
      slice (overwrite s.content (s.layout.offset w.index.toNat + k) ((w.body.drop k).take n)) (s.layout.offset j) m =
        slice s.content (s.layout.offset j) m := by
    intro j m hj hm
    have hdis := @Layout.disjoint s.layout _ _ hj
    refine slice_overwrite_of_disjoint hfits ?_
    rw [hpiece]
    omega
  have hclaims : Claims (s.enterWriter i (.writing (k + n))) := hi.keep hw hh (.inl ⟨_, rfl⟩)
  refine ⟨hclaims.congr rfl rfl, hi.slots, ?_, @fun v m hmem hm => ?_, @fun j hr => ?_⟩
  · show (overwrite s.content _ _).length = _
    rw [length_overwrite hfits]
    exact hi.size
  · obtain ⟨a, ha⟩ := List.mem_iff_getElem?.1 hmem
    rcases enter_cases hw ha with ⟨hai, hold⟩ | ⟨-, rfl⟩
    · obtain ⟨hmexp, hmlen, hmslice⟩ := hi.progress (List.mem_of_getElem? hold) hm
      refine ⟨hmexp, hmlen, ?_⟩
      have hne : v.index.toNat ≠ w.index.toNat := by
        intro heq
        have hv := (hi.holder hold (.inl ⟨m, hm⟩)).1
        have hw' := (hi.holder hw hh).1
        exact hai (hi.unique hold hw (.inl ⟨m, hm⟩) hh (by omega))
      rw [← hmslice]
      exact hother _ _ hne hmexp
    · obtain rfl : k + n = m := WriterPC.writing.inj hm
      refine ⟨hexp, hbody, ?_⟩
      have hext := slice_overwrite_extend hfits
      rw [hpiece] at hext
      refine hext.trans ?_
      rw [(hi.progress (List.mem_of_getElem? hw) hpc).2.2, ← List.take_add]
      rfl
  · obtain ⟨v, hv, hidx, hfin, hlen, hslice⟩ := @Written.enterWriter _ j i (.writing (k + n)) _ hw (by simp [hpc])
      (hi.written hr)
    refine ⟨v, hv, hidx, hfin, hlen, (hother j _ ?_ le_rfl).trans hslice⟩
    rintro rfl
    have hr' : s.received[w.index.toNat]? = some .done := hr
    rw [(hi.holder hw hh).2] at hr'
    simp at hr'

theorem WritersInv.fail (hi : WritersInv s) {i k : Nat} {w : Writer} (hw : s.writers[i]? = some w) (hpc : w.pc = .writing k) :
    WritersInv (s.enterWriter i .failed) := by
  refine ⟨hi.keep hw (.inl ⟨k, hpc⟩) (.inr rfl), hi.slots, hi.size, @fun v m hmem hm => ?_,
    @fun j hr => (hi.written hr).enterWriter hw (by simp [hpc])⟩
  obtain ⟨a, ha⟩ := List.mem_iff_getElem?.1 hmem
  rcases enter_cases hw ha with ⟨-, hold⟩ | ⟨-, rfl⟩
  · exact hi.progress (List.mem_of_getElem? hold) hm
  · simp [Writer.enter] at hm

/-! ### The end of a claim -/

/-- A writer gives its slot back: free, or done once the region holds all of the chunk. -/
theorem WritersInv.giveBack (hi : WritersInv s) {i : Nat} {slot : Slot} {pc : WriterPC} {w : Writer}
    (hw : s.writers[i]? = some w) (hh : w.Holds) (hslot : slot ≠ .writing) (hpc : pc = .refused ∨ pc = .finished)
    (hdone : slot = .done → pc = .finished ∧ s.layout.expected w.index.toNat ≤ w.body.length ∧
      slice s.content (s.layout.offset w.index.toNat) (s.layout.expected w.index.toNat) =
        w.body.take (s.layout.expected w.index.toNat)) :
    WritersInv ((s.put w.index.toNat slot).enterWriter i pc) := by
  obtain ⟨hnat, hwriting⟩ := hi.holder hw hh
  have hlt : w.index.toNat < s.received.length := (List.getElem?_eq_some_iff.1 hwriting).1
  have hw' : (s.put w.index.toNat slot).writers[i]? = some w := hw
  have hnot : ¬(w.enter pc).Holds := by
    rintro (⟨k, hk⟩ | hk) <;> rcases hpc with rfl | rfl <;> simp [Writer.enter] at hk
  have hold : ∀ {a : Nat} {v : Writer}, ((s.put w.index.toNat slot).enterWriter i pc).writers[a]? = some v → v.Holds →
      a ≠ i ∧ s.writers[a]? = some v := by
    intro a v hv hvh
    rcases enter_cases hw' hv with h | ⟨-, rfl⟩
    · exact h
    · exact absurd hvh hnot
  have hne : ∀ {a : Nat} {v : Writer}, a ≠ i → s.writers[a]? = some v → v.Holds →
      w.index.toNat ≠ v.index.toNat := by
    intro a v ha hv hvh heq
    have hvnat := (hi.holder hv hvh).1
    exact ha (hi.unique hv hw hvh hh (by omega))
  refine ⟨⟨@fun a v ha hv => ?_, @fun a b v u ha hb hv hu heq => ?_, @fun j hr =>
    ?_⟩, by simpa [enterWriter, put] using hi.slots, hi.size, @fun v m hmem hm => ?_, @fun j hr => ?_⟩
  · obtain ⟨hai, hold⟩ := hold ha hv
    obtain ⟨hvnat, hvw⟩ := hi.holder hold hv
    exact ⟨hvnat, (List.getElem?_set_ne (hne hai hold hv)).trans hvw⟩
  · exact hi.unique (hold ha hv).2 (hold hb hu).2 hv hu heq
  · rcases getElem?_put hlt hr with ⟨-, h⟩ | ⟨hj, hr⟩
    · exact absurd h.symm hslot
    · obtain ⟨a, v, hv, hvh, hidx⟩ := hi.claimed hr
      refine ⟨a, v, getElem?_enterWriter.2 (.inl ⟨?_, hv⟩), hvh, hidx⟩
      rintro rfl
      rw [hw] at hv
      obtain rfl := Option.some.inj hv
      omega
  · obtain ⟨a, ha⟩ := List.mem_iff_getElem?.1 hmem
    exact hi.progress (List.mem_of_getElem? (hold ha (.inl ⟨m, hm⟩)).2) hm
  · rcases getElem?_put hlt hr with ⟨rfl, h⟩ | ⟨-, hr⟩
    · obtain ⟨rfl, hlen, hslice⟩ := hdone h.symm
      exact ⟨w.enter .finished, List.mem_iff_getElem?.2 ⟨i, getElem?_enterWriter.2 (.inr ⟨rfl, w, hw, rfl⟩)⟩,
        hnat, rfl, hlen, hslice⟩
    · have hfin : w.pc ≠ .finished := by
        rcases hh with ⟨k, hk⟩ | hk <;> simp [hk]
      exact @Written.enterWriter _ j i pc _ hw hfin (hi.written hr)

theorem WritersInv.releaseClaim (hi : WritersInv s) {i : Nat} {w : Writer} (hw : s.writers[i]? = some w) (hh : w.Holds) :
    WritersInv (s.releaseClaim i w.index.toNat) := by
  have heq : s.releaseClaim i w.index.toNat = (s.put w.index.toNat .free).enterWriter i .refused := by
    rw [Session.releaseClaim, if_pos (hi.holder hw hh).2]
  rw [heq]
  exact hi.giveBack hw hh (by simp) (.inl rfl) (by simp)

theorem WritersInv.finishChunk (hi : WritersInv s) {i : Nat} {w : Writer} (hw : s.writers[i]? = some w)
    (hpc : w.pc = .writing (s.layout.expected w.index.toNat)) : WritersInv (s.finishChunk i w.index.toNat) := by
  have hh : w.Holds := .inl ⟨_, hpc⟩
  obtain ⟨-, hlen, hslice⟩ := hi.progress (List.mem_of_getElem? hw) hpc
  unfold Session.finishChunk
  split_ifs
  · exact hi.giveBack hw hh (by simp) (.inl rfl) (by simp)
  · exact hi.giveBack hw hh (by simp) (.inr rfl) fun _ => ⟨rfl, hlen, hslice⟩

/-! ### Every step -/

theorem WritersInv.step (hi : WritersInv s) {a : SessionAct} (h : s.step a = some s') : WritersInv s' := by
  cases a with
  | write index contentLength body =>
    obtain rfl := Option.some.inj h
    refine hi.append ?_
    cases s.done
    · exact .inl rfl
    · exact .inr rfl
  | claim i =>
    simp only [Session.step] at h
    split at h
    · rename_i index contentLength body hw
      cases hclaim : s.claimChunk index contentLength with
      | ok u =>
        rw [hclaim] at h
        obtain rfl := Option.some.inj h
        obtain ⟨-, -, hnat, hfree⟩ := claimChunk_ok hclaim hi.slots
        exact hi.claim hw rfl hnat hfree
      | error e =>
        rw [hclaim] at h
        cases e <;> obtain rfl := Option.some.inj h
        case alreadyDone => exact hi.idle hw rfl (.inr rfl)
        all_goals exact hi.idle hw rfl (.inl rfl)
    · simp at h
  | put i n =>
    simp only [Session.step] at h
    split at h
    · rename_i index contentLength body written hw
      split_ifs at h with hguard
      obtain rfl := Option.some.inj h
      exact hi.write hw rfl hguard.2.1 hguard.2.2
    · simp at h
  | fail i =>
    simp only [Session.step] at h
    split at h
    · rename_i hw
      obtain rfl := Option.some.inj h
      exact hi.fail hw rfl
    · simp at h
  | settle i =>
    simp only [Session.step] at h
    split at h
    · rename_i index contentLength body written hw
      split_ifs at h with hfull hshort
      · obtain rfl := Option.some.inj h
        subst hfull
        exact hi.finishChunk hw rfl
      · obtain rfl := Option.some.inj h
        exact hi.releaseClaim hw (.inl ⟨_, rfl⟩)
    · rename_i hw
      obtain rfl := Option.some.inj h
      exact hi.releaseClaim hw (.inr rfl)
    · simp at h
  | begin _ | check _ | abort _ | abortStep _ | markCompleted =>
    obtain ⟨_, _, _, _, _, _, _, _, _, rfl⟩ := step_not_writes h fun hf => hf
    exact hi.congr rfl rfl rfl rfl

/-! ### Completions -/

/-- One call at most stands between the swap of `done` and the section; after a grant there is none. -/
structure CompletionsInv (s : Session) : Prop where
  window : ∀ {a b : Nat} {c d : Completion}, s.completions[a]? = some c → s.completions[b]? = some d →
    c.pc = .entered → d.pc = .entered → a = b
  entered : ∀ {c : Completion}, c ∈ s.completions → c.pc = .entered → s.done = true
  granted : ∀ {c : Completion}, c ∈ s.completions → c.pc = .granted →
    s.done = true ∧ (∀ x ∈ s.received, x = .done) ∧ ∀ d ∈ s.completions, d.pc ≠ .entered
  once : ∀ {a b : Nat} {c d : Completion}, s.completions[a]? = some c → s.completions[b]? = some d → c.pc = .granted →
    d.pc = .granted → a = b

theorem CompletionsInv.congr (hi : CompletionsInv s) (hc : s'.completions = s.completions)
    (hd : s.done = true → s'.done = true)
    (hr : (∀ x ∈ s.received, x = .done) → ∀ x ∈ s'.received, x = .done) : CompletionsInv s' := by
  constructor <;> simp only [hc]
  · exact hi.window
  · exact fun hmem hpc => hd (hi.entered hmem hpc)
  · intro c hmem hpc
    obtain ⟨hdone, hall, hnone⟩ := hi.granted hmem hpc
    exact ⟨hd hdone, hr hall, hnone⟩
  · exact hi.once

theorem CompletionsInv.appendFinished (hi : CompletionsInv s) (managed : Bool) :
    CompletionsInv { s with completions := s.completions ++ [⟨managed, .finished⟩] } := by
  have hmem : ∀ {c : Completion}, c ∈ s.completions ++ [⟨managed, .finished⟩] → c.pc ≠ .finished →
      c ∈ s.completions := by
    intro c hc hpc
    rcases List.mem_append.1 hc with hc | hc
    · exact hc
    · obtain rfl := List.mem_singleton.1 hc
      exact absurd rfl hpc
  have hget : ∀ {a : Nat} {c : Completion}, (s.completions ++ [⟨managed, .finished⟩])[a]? = some c →
    c.pc ≠ .finished → s.completions[a]? = some c := by
    intro a c hc hpc
    rcases getElem?_concat_eq_some.1 hc with hc | ⟨-, rfl⟩
    · exact hc
    · exact absurd rfl hpc
  refine ⟨fun ha hb hc hd => hi.window (hget ha (by simp [hc])) (hget hb (by simp [hd])) hc hd,
    fun hc hpc => hi.entered (hmem hc (by simp [hpc])) hpc, fun hc hpc => ?_,
    fun ha hb hc hd => hi.once (hget ha (by simp [hc])) (hget hb (by simp [hd])) hc hd⟩
  obtain ⟨hdone, hall, hnone⟩ := hi.granted (hmem hc (by simp [hpc])) hpc
  refine ⟨hdone, hall, fun d hd hent => ?_⟩
  exact hnone d (hmem hd (by simp [hent])) hent

theorem CompletionsInv.appendEntered (hi : CompletionsInv s) (hdone : s.done = false) (managed : Bool) :
    CompletionsInv { s with done := true, completions := s.completions ++ [⟨managed, .entered⟩] } := by
  -- `done` was 0, so nobody has got in before, and nobody was granted
  have hnone : ∀ {c : Completion}, c ∈ s.completions → c.pc ≠ .entered ∧ c.pc ≠ .granted := by
    intro c hc
    constructor
    · intro hpc
      have := hi.entered hc hpc
      simp [hdone] at this
    · intro hpc
      have := (hi.granted hc hpc).1
      simp [hdone] at this
  have hentered : ∀ {a : Nat} {c : Completion}, (s.completions ++ [⟨managed, .entered⟩])[a]? = some c →
    c.pc = .entered → a = s.completions.length := by
    intro a c hc hpc
    rcases getElem?_concat_eq_some.1 hc with hc | ⟨rfl, -⟩
    · exact absurd hpc (hnone (List.mem_of_getElem? hc)).1
    · rfl
  have hgranted : ∀ {c : Completion}, c ∈ s.completions ++ [⟨managed, .entered⟩] → c.pc ≠ .granted := by
    intro c hc
    rcases List.mem_append.1 hc with hc | hc
    · exact (hnone hc).2
    · obtain rfl := List.mem_singleton.1 hc
      simp
  refine ⟨fun ha hb hc hd => (hentered ha hc).trans (hentered hb hd).symm, fun _ _ => rfl, fun hc hpc =>
    absurd hpc (hgranted hc), fun ha _ hc _ => absurd hc (hgranted (List.mem_of_getElem? ha))⟩

theorem CompletionsInv.check (hi : CompletionsInv s) {i : Nat} {c : Completion} (hc : s.completions[i]? = some c)
    (hpc : c.pc = .entered) : CompletionsInv (s.beginCompletion i) := by
  have hmem := List.mem_of_getElem? hc
  have hdone := hi.entered hmem hpc
  have hnone : ∀ d ∈ s.completions, d.pc ≠ .granted := fun d hd hg => (hi.granted hd hg).2.2 c hmem hpc
  have hcases : ∀ {pc : CompletionPC} {a : Nat} {d : Completion}, (s.completions.modify i (Completion.enter pc))[a]? =
    some d → a ≠ i ∧ s.completions[a]? = some d ∨ a = i ∧ d.pc = pc := by
    intro pc a d hd
    rcases getElem?_modify_eq_some.1 hd with h | ⟨rfl, b, -, rfl⟩
    · exact .inl h
    · exact .inr ⟨rfl, rfl⟩
  -- the one that was in is out again
  have hleft : ∀ {pc : CompletionPC} {a : Nat} {d : Completion}, pc ≠ .entered →
      (s.completions.modify i (Completion.enter pc))[a]? = some d → d.pc ≠ .entered := by
    intro pc a d hne hd hent
    rcases hcases hd with ⟨hai, hd⟩ | ⟨-, rfl⟩
    · exact hai (hi.window hd hc hent hpc)
    · exact hne hent
  have hgrant : ∀ {pc : CompletionPC} {a : Nat} {d : Completion}, (s.completions.modify i (Completion.enter pc))[a]? =
    some d → d.pc = .granted → a = i ∧ pc = .granted := by
    intro pc a d hd hg
    rcases hcases hd with ⟨-, hd⟩ | ⟨rfl, rfl⟩
    · exact absurd hg (hnone d (List.mem_of_getElem? hd))
    · exact ⟨rfl, hg⟩
  unfold beginCompletion
  split_ifs with hclosed hall
  · refine ⟨fun ha _ hca _ => absurd hca (hleft (by simp) ha), fun hd hent => ?_, fun hd hg => ?_,
      fun ha hb hca hcb => ?_⟩
    · obtain ⟨a, ha⟩ := List.mem_iff_getElem?.1 hd
      exact absurd hent (hleft (by simp) ha)
    · obtain ⟨a, ha⟩ := List.mem_iff_getElem?.1 hd
      simpa using (hgrant ha hg).2
    · exact (hgrant ha hca).1.trans (hgrant hb hcb).1.symm
  · refine ⟨fun ha _ hca _ => absurd hca (hleft (by simp) ha), fun _ _ => hdone, fun hd hg =>
      ⟨hdone, by simpa using hall, fun d hd => ?_⟩, fun ha hb hca hcb => ?_⟩
    · obtain ⟨a, ha⟩ := List.mem_iff_getElem?.1 hd
      exact hleft (by simp) ha
    · exact (hgrant ha hca).1.trans (hgrant hb hcb).1.symm
  · refine ⟨fun ha _ hca _ => absurd hca (hleft (by simp) ha), fun hd hent => ?_, fun hd hg => ?_,
      fun ha hb hca hcb => ?_⟩
    · obtain ⟨a, ha⟩ := List.mem_iff_getElem?.1 hd
      exact absurd hent (hleft (by simp) ha)
    · obtain ⟨a, ha⟩ := List.mem_iff_getElem?.1 hd
      simpa using (hgrant ha hg).2
    · exact (hgrant ha hca).1.trans (hgrant hb hcb).1.symm

theorem CompletionsInv.putEnter (hi : CompletionsInv s) {i j : Nat} {slot x : Slot} {pc : WriterPC}
    (hx : s.received[j]? = some x) (hne : x ≠ .done) : CompletionsInv ((s.put j slot).enterWriter i pc) := by
  refine hi.congr rfl (fun h => h) fun hall => ?_
  exact absurd (hall x (List.mem_of_getElem? hx)) hne

theorem CompletionsInv.enterWriter (hi : CompletionsInv s) (i : Nat) (pc : WriterPC) : CompletionsInv (s.enterWriter i pc) :=
  hi.congr rfl (fun h => h) fun h => h

theorem CompletionsInv.releaseClaim (hi : CompletionsInv s) (i j : Nat) : CompletionsInv (s.releaseClaim i j) := by
  unfold Session.releaseClaim
  split_ifs with h
  · exact hi.putEnter h (by simp)
  · exact hi.enterWriter i _

theorem CompletionsInv.step (hi : CompletionsInv s) (hw : WritersInv s) {a : SessionAct} (h : s.step a = some s') :
    CompletionsInv s' := by
  cases a with
  | write index contentLength body =>
    obtain rfl := Option.some.inj h
    exact hi.congr rfl (fun h => h) fun h => h
  | claim i =>
    simp only [Session.step] at h
    split at h
    · rename_i index contentLength body hget
      cases hclaim : s.claimChunk index contentLength with
      | ok u =>
        rw [hclaim] at h
        obtain rfl := Option.some.inj h
        exact hi.putEnter (claimChunk_ok hclaim hw.slots).2.2.2 (by simp)
      | error e =>
        rw [hclaim] at h
        cases e <;> obtain rfl := Option.some.inj h <;> exact hi.enterWriter i _
    · simp at h
  | put i n =>
    simp only [Session.step] at h
    split at h
    · split_ifs at h
      obtain rfl := Option.some.inj h
      exact hi.congr rfl (fun h => h) fun h => h
    · simp at h
  | fail i =>
    simp only [Session.step] at h
    split at h
    · obtain rfl := Option.some.inj h
      exact hi.enterWriter i _
    · simp at h
  | settle i =>
    simp only [Session.step] at h
    split at h
    · rename_i index contentLength body written hget
      split_ifs at h with hfull hshort
      · obtain rfl := Option.some.inj h
        have hslot := (hw.holder hget (.inl ⟨_, rfl⟩)).2
        unfold finishChunk
        split_ifs
        · exact hi.putEnter hslot (by simp)
        · exact hi.putEnter hslot (by simp)
      · obtain rfl := Option.some.inj h
        exact hi.releaseClaim i _
    · obtain rfl := Option.some.inj h
      exact hi.releaseClaim i _
    · simp at h
  | begin managed =>
    simp only [Session.step] at h
    split_ifs at h with hdone
    · obtain rfl := Option.some.inj h
      exact hi.appendFinished managed
    · obtain rfl := Option.some.inj h
      exact hi.appendEntered (by simpa using hdone) managed
  | check i =>
    simp only [Session.step] at h
    split at h
    · rename_i hget
      obtain rfl := Option.some.inj h
      exact hi.check hget rfl
    · simp at h
  | abort managed =>
    obtain rfl := Option.some.inj h
    exact hi.congr rfl (fun h => h) fun h => h
  | abortStep i =>
    simp only [Session.step] at h
    split at h
    · split_ifs at h <;> obtain rfl := Option.some.inj h <;> exact hi.congr rfl (fun h => h) fun h => h
    · obtain rfl := Option.some.inj h
      exact hi.congr rfl (fun h => h) fun h => h
    · obtain rfl := Option.some.inj h
      exact hi.congr rfl (fun h => h) fun h => h
    · obtain rfl := Option.some.inj h
      exact hi.congr rfl (fun _ => rfl) fun h => h
    · simp at h
  | markCompleted =>
    simp only [Session.step] at h
    split_ifs at h
    obtain rfl := Option.some.inj h
    exact hi.congr rfl (fun _ => rfl) fun h => h

/-! ### Aborts -/

/-- The temp file is there, and open, until an abort or `MarkCompleted`. -/
structure AbortsInv (s : Session) : Prop where
  started : ∀ a ∈ s.aborts, a.pc ≠ .begun → s.aborting = true
  intact : s.aborting = false → s.closed = false → s.file = true ∧ s.tempPath = true ∧ s.handle = true ∧
    s.present = true

theorem AbortsInv.congr (hi : AbortsInv s) (ha : s'.aborts = s.aborts) (hb : s'.aborting = s.aborting)
    (hc : s'.closed = s.closed)
    (hf : s'.file = s.file ∧ s'.tempPath = s.tempPath ∧ s'.handle = s.handle ∧ s'.present = s.present) :
      AbortsInv s' := by
  constructor <;> simp only [ha, hb, hc, hf.1, hf.2.1, hf.2.2.1, hf.2.2.2]
  · exact hi.started
  · exact hi.intact

theorem AbortsInv.aborting (h : s'.aborting = true) : AbortsInv s' := ⟨fun _ _ _ => h, fun h' => by simp [h] at h'⟩

theorem AbortsInv.step (hi : AbortsInv s) {a : SessionAct} (h : s.step a = some s') : AbortsInv s' := by
  cases a with
  | write _ _ _ | claim _ | put _ _ | fail _ | settle _ =>
    obtain ⟨_, _, _, rfl⟩ := step_writes h trivial
    exact hi.congr rfl rfl rfl ⟨rfl, rfl, rfl, rfl⟩
  | begin managed =>
    simp only [Session.step] at h
    split_ifs at h <;> obtain rfl := Option.some.inj h <;> exact hi.congr rfl rfl rfl ⟨rfl, rfl, rfl, rfl⟩
  | check i =>
    simp only [Session.step] at h
    split at h
    · obtain rfl := Option.some.inj h
      unfold beginCompletion
      split_ifs <;> exact hi.congr rfl rfl rfl ⟨rfl, rfl, rfl, rfl⟩
    · simp at h
  | abort managed =>
    obtain rfl := Option.some.inj h
    refine ⟨fun a ha hpc => ?_, hi.intact⟩
    rcases List.mem_append.1 ha with ha | ha
    · exact hi.started a ha hpc
    · obtain rfl := List.mem_singleton.1 ha
      exact absurd rfl hpc
  | abortStep i =>
    simp only [Session.step] at h
    split at h
    · split_ifs at h with hab
      · obtain rfl := Option.some.inj h
        exact .aborting hab
      · obtain rfl := Option.some.inj h
        exact .aborting rfl
    · rename_i hget
      obtain rfl := Option.some.inj h
      exact .aborting (hi.started _ (List.mem_of_getElem? hget) (by simp))
    · rename_i hget
      obtain rfl := Option.some.inj h
      exact .aborting (hi.started _ (List.mem_of_getElem? hget) (by simp))
    · rename_i hget
      obtain rfl := Option.some.inj h
      exact .aborting (hi.started _ (List.mem_of_getElem? hget) (by simp))
    · simp at h
  | markCompleted =>
    simp only [Session.step] at h
    split_ifs at h
    obtain rfl := Option.some.inj h
    exact ⟨hi.started, fun _ hc => by simp at hc⟩

structure Inv (s : Session) : Prop extends WritersInv s, CompletionsInv s, AbortsInv s

theorem Inv.step (hi : Inv s) {a : SessionAct} (h : s.step a = some s') : Inv s' :=
  ⟨hi.toWritersInv.step h, hi.toCompletionsInv.step hi.toWritersInv h, hi.toAbortsInv.step h⟩

/-! ### What a grant means -/

theorem Inv.complete (hi : Inv s) {c : Completion} (hc : c ∈ s.completions) (hpc : c.pc = .granted) :
    ∃ bodies : Nat → List UInt8,
      (∀ i < s.layout.chunkCount, ∃ w ∈ s.writers, w.index = i ∧ w.pc = .finished ∧
        (bodies i).length = s.layout.expected i ∧ bodies i = w.body.take (s.layout.expected i)) ∧
      s.content = (List.range s.layout.chunkCount).flatMap bodies ∧ s.content.length = s.layout.totalSize ∧
      ∀ w ∈ s.writers, ¬w.Holds := by
  have hall := (hi.granted hc hpc).2.1
  refine ⟨fun i => slice s.content (s.layout.offset i) (s.layout.expected i), fun i hlt => ?_,
    (Layout.flatMap_slice hi.size).symm, hi.size, fun w hw hh => ?_⟩
  · have hlt' : i < s.received.length := by rwa [hi.slots]
    have hdone : s.received[i]? = some .done := by
      rw [List.getElem?_eq_getElem hlt', hall _ (List.getElem_mem hlt')]
    obtain ⟨w, hw, hidx, hfin, hlen, hslice⟩ := hi.written hdone
    refine ⟨w, hw, hidx, hfin, ?_, hslice⟩
    refine length_slice ?_
    rw [hi.size]
    exact Layout.offset_add_expected_le hlt
  · obtain ⟨a, ha⟩ := List.mem_iff_getElem?.1 hw
    have hwriting := (hi.holder ha hh).2
    have := hall _ (List.mem_of_getElem? hwriting)
    simp at this

end Session

end Renop.Upload
