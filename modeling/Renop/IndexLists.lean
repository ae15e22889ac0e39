import Renop.Index

/-!
# Listings of children

`Lists L children`: under every parent but `""`, `"."` and `"/"`, the listing has exactly the base
names of the paths in `L`, each once. `addChild` puts one path into `L`. `removeChild` takes one out,
but it also deletes the listing under that path, so nothing in `L` may lie under it.
-/

namespace Renop.Index

/-! ### Splitting -/

theorem splitLast_none {l : List Char} : splitLast l = none ↔ '/' ∉ l := by
  induction l with
  | nil => simp [splitLast]
  | cons c cs ih =>
    rw [splitLast, List.mem_cons, not_or, ← ih]
    cases splitLast cs with
    | some q => simp
    | none =>
      dsimp only
      by_cases hc : c = '/'
      · simp [hc]
      · simp [hc, Ne.symm hc]

theorem splitLast_append (p b : List Char) (hb : '/' ∉ b) : splitLast (p ++ '/' :: b) = some (p, b) := by
  induction p with
  | nil => simp [splitLast, splitLast_none.2 hb]
  | cons c p ih => simp [splitLast, ih]

theorem splitLast_some {l p b : List Char} (h : splitLast l = some (p, b)) : l = p ++ '/' :: b ∧ '/' ∉ b := by
  induction l generalizing p with
  | nil => cases h
  | cons c cs ih =>
    simp only [splitLast] at h
    cases hs : splitLast cs with
    | some q =>
      rw [hs] at h
      obtain ⟨rfl, rfl⟩ := Prod.mk.inj (Option.some.inj h)
      obtain ⟨h1, h2⟩ := ih hs
      exact ⟨by rw [h1]; rfl, h2⟩
    | none =>
      rw [hs] at h
      dsimp only at h
      split_ifs at h with hc
      obtain ⟨rfl, rfl⟩ := Prod.mk.inj (Option.some.inj h)
      exact ⟨by rw [hc]; rfl, splitLast_none.1 hs⟩

def Ordinary (p : String) : Prop := p ≠ "" ∧ p ≠ "." ∧ p ≠ "/"

/-- A base name. -/
def Base (b : String) : Prop := '/' ∉ b.toList

theorem toList_under (p b : String) : (p ++ "/" ++ b).toList = p.toList ++ '/' :: b.toList := by
  simp

theorem split_under {p b : String} (hp : p ≠ "") (hb : Base b) : splitPathParentBase (p ++ "/" ++ b) = (p, b) := by
  unfold splitPathParentBase
  rw [toList_under, splitLast_append _ _ hb]
  cases hl : p.toList with
  | nil => exact absurd (String.toList_eq_nil_iff.1 hl) hp
  | cons c cs => simp [← hl]

theorem under_split {x p b : String} (h : splitPathParentBase x = (p, b)) (hp : Ordinary p) :
    x = p ++ "/" ++ b ∧ Base b := by
  unfold splitPathParentBase at h
  split at h
  · exact absurd (Prod.mk.inj h).1.symm hp.1
  · exact absurd (Prod.mk.inj h).1.symm hp.2.2
  · rename_i parent base _ hs
    obtain ⟨rfl, rfl⟩ := Prod.mk.inj h
    obtain ⟨h1, h2⟩ := splitLast_some hs
    refine ⟨String.toList_inj.1 ?_, ?_⟩
    · rw [toList_under]; simpa using h1
    · simpa [Base] using h2

theorem under_inj {p q b c : String} (hp : p ≠ "") (hq : q ≠ "") (hb : Base b) (hc : Base c)
    (h : p ++ "/" ++ b = q ++ "/" ++ c) : p = q ∧ b = c := by
  have := split_under hp hb
  rw [h, split_under hq hc] at this
  exact ⟨(Prod.mk.inj this).1.symm, (Prod.mk.inj this).2.symm⟩

/-! ### Listings -/

structure Lists (L : String → Prop) (children : String → List String) : Prop where
  nodup : ∀ p, (children p).Nodup
  special : ∀ p, ¬ Ordinary p → children p = []
  base : ∀ p, ∀ b ∈ children p, Base b
  listed : ∀ p b, Ordinary p → Base b → (b ∈ children p ↔ L (p ++ "/" ++ b))

namespace Lists
variable {L L' : String → Prop} {idx : FileIndex}

theorem congr_under {children : String → List String} (h : Lists L children)
    (hL : ∀ p b, Ordinary p → Base b → (L (p ++ "/" ++ b) ↔ L' (p ++ "/" ++ b))) : Lists L' children :=
  ⟨h.nodup, h.special, h.base, fun p b hp hb => (h.listed p b hp hb).trans (hL p b hp hb)⟩

theorem congr {children : String → List String} (h : Lists L children) (hL : ∀ p, L p ↔ L' p) : Lists L' children :=
  h.congr_under fun _ _ _ _ => hL _

theorem addChild (h : Lists L idx.children) (x : String) : Lists (fun p => L p ∨ p = x) (idx.addChild x).children := by
  unfold FileIndex.addChild
  rcases hs : splitPathParentBase x with ⟨parent, base⟩
  dsimp only
  by_cases hpar : Ordinary parent
  · obtain ⟨rfl, hb⟩ := under_split hs hpar
    have hne : parent ≠ parent ++ "/" ++ base := by
      intro e
      have := congrArg (fun s : String => s.toList.length) e
      simp at this
    rw [if_neg (by simp [hne, hpar.1, hpar.2.1, hpar.2.2])]
    have hx : ∀ q b, Ordinary q → Base b → (q ++ "/" ++ b = parent ++ "/" ++ base ↔ q = parent ∧ b = base) := by
      refine fun q b hq hb' => ⟨under_inj hq.1 hpar.1 hb' hb, ?_⟩
      rintro ⟨rfl, rfl⟩; rfl
    split_ifs with hmem
    · refine h.congr fun p => ⟨.inl, fun hp => hp.elim id ?_⟩
      rintro rfl
      exact (h.listed parent base hpar hb).1 hmem
    · dsimp only
      refine ⟨fun q => ?_, fun q hq => ?_, fun q b hbm => ?_, fun q b hq hb' => ?_⟩
      · by_cases hqp : q = parent
        · subst hqp
          rw [Function.update_self]
          refine List.nodup_append.2 ⟨h.nodup q, List.nodup_singleton _, ?_⟩
          intro a ha b hb e
          rw [List.mem_singleton] at hb
          exact hmem (hb ▸ e ▸ ha)
        · rw [Function.update_of_ne hqp]; exact h.nodup q
      · rw [Function.update_of_ne fun e => hq (by rw [e]; exact hpar)]; exact h.special q hq
      · by_cases hqp : q = parent
        · subst hqp
          rw [Function.update_self, List.mem_append, List.mem_singleton] at hbm
          rcases hbm with hbm | rfl
          exacts [h.base q b hbm, hb]
        · rw [Function.update_of_ne hqp] at hbm; exact h.base q b hbm
      · rw [hx q b hq hb', ← h.listed q b hq hb']
        by_cases hqp : q = parent
        · subst hqp; simp
        · simp [hqp]
  · -- a path at the top level is not listed
    have hx : ∀ q b, Ordinary q → Base b → q ++ "/" ++ b ≠ x := by
      rintro q b hq hb rfl
      rw [split_under hq.1 hb] at hs
      exact hpar ((Prod.mk.inj hs).1 ▸ hq)
    rw [if_pos (by unfold Ordinary at hpar; tauto)]
    refine ⟨h.nodup, h.special, h.base, fun q b hq hb => ?_⟩
    rw [h.listed q b hq hb, or_iff_left (hx q b hq hb)]

theorem removeChild (h : Lists L idx.children) (x : String) (hx : ∀ b, Ordinary x → Base b → ¬ L (x ++ "/" ++ b)) :
    Lists (fun p => L p ∧ p ≠ x) (idx.removeChild x).children := by
  unfold FileIndex.removeChild
  rcases hs : splitPathParentBase x with ⟨parent, base⟩
  dsimp only
  have hval : ∀ q, Function.update (Function.update idx.children parent ((idx.children parent).erase base)) x [] q =
      if q = x then [] else if q = parent then (idx.children parent).erase base else idx.children q := by
    intro q
    simp only [Function.update_apply]
  have hsub : ∀ q, (Function.update (Function.update idx.children parent ((idx.children parent).erase base)) x [] q).Sublist
      (idx.children q) := by
    intro q
    rw [hval]
    split_ifs with h1 h2
    · exact List.nil_sublist _
    · rw [h2]; exact List.erase_sublist
    · exact List.Sublist.refl _
  refine ⟨fun q => (h.nodup q).sublist (hsub q), fun q hq => ?_, fun q b hb => h.base q b ((hsub q).subset hb),
    fun q b hq hb => ?_⟩
  · have := hsub q
    rw [h.special q hq] at this
    exact List.sublist_nil.1 this
  · rw [hval]
    split_ifs with h1 h2
    · subst h1
      simp [hx b hq hb]
    · subst h2
      obtain ⟨rfl, hbase⟩ := under_split hs hq
      rw [(h.nodup q).mem_erase_iff, h.listed q b hq hb, and_comm]
      refine and_congr_right fun _ => not_congr ⟨fun e => by rw [e], fun e => (under_inj hq.1 hq.1 hb hbase e).2⟩
    · rw [h.listed q b hq hb, iff_self_and]
      rintro - rfl
      rw [split_under hq.1 hb] at hs
      exact h2 (Prod.mk.inj hs).1

end Lists
end Renop.Index
