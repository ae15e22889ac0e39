import Mathlib.Data.List.Nodup

/-!
# Maps as lists of pairs

A map that is ranged over in any order: a list of pairs, no key twice, and an order is a permutation of it.
-/

namespace Renop.GoMap

variable {K V : Type}

/-- No key twice. -/
def Keyed (m : List (K × V)) : Prop := (m.map Prod.fst).Nodup

theorem Keyed.nil : Keyed ([] : List (K × V)) := List.nodup_nil

theorem Keyed.eq {m : List (K × V)} (hm : Keyed m) {c c' : K × V} (hc : c ∈ m) (hc' : c' ∈ m) (h : c.1 = c'.1) :
    c = c' :=
  List.inj_on_of_nodup_map hm hc hc' h

theorem Keyed.sublist {m m' : List (K × V)} (hm : Keyed m) (h : m'.Sublist m) : Keyed m' := List.Nodup.sublist (h.map _) hm

theorem Keyed.perm {m m' : List (K × V)} (hm : Keyed m) (h : m'.Perm m) : Keyed m' := (h.map Prod.fst).nodup_iff.2 hm

section Drop
variable [DecidableEq K]

/-- `delete` -/
def drop (k : K) (m : List (K × V)) : List (K × V) := m.filter fun c => c.1 ≠ k

/-- `m[k] = v` -/
def assign (k : K) (v : V) (m : List (K × V)) : List (K × V) := (k, v) :: drop k m

def contains (k : K) (m : List (K × V)) : Bool := m.any fun c => c.1 = k

variable {k : K} {v : V} {m : List (K × V)} {c : K × V}

@[simp] theorem mem_drop : c ∈ drop k m ↔ c ∈ m ∧ c.1 ≠ k := by simp [drop]

@[simp] theorem mem_assign : c ∈ assign k v m ↔ c = (k, v) ∨ c ∈ m ∧ c.1 ≠ k := by simp [assign]

theorem contains_iff : contains k m = true ↔ ∃ c ∈ m, c.1 = k := by simp [contains]

theorem drop_sublist (k : K) (m : List (K × V)) : (drop k m).Sublist m := List.filter_sublist

theorem length_assign : (assign k v m).length = (drop k m).length + 1 := rfl

theorem length_drop_le (k : K) (m : List (K × V)) : (drop k m).length ≤ m.length := List.length_filter_le _ _

theorem Keyed.drop (hm : Keyed m) (k : K) : Keyed (drop k m) := hm.sublist (drop_sublist k m)

theorem Keyed.assign (hm : Keyed m) (k : K) (v : V) : Keyed (assign k v m) := by
  have hnew : k ∉ (GoMap.drop k m).map Prod.fst := by
    intro hk
    obtain ⟨c, hc, rfl⟩ := List.mem_map.1 hk
    exact (mem_drop.1 hc).2 rfl
  exact List.nodup_cons.2 ⟨hnew, hm.drop k⟩

theorem drop_of_not_contains (h : contains k m = false) : drop k m = m := by
  refine List.filter_eq_self.2 fun c hc => ?_
  refine decide_eq_true fun hk => ?_
  have := contains_iff.2 ⟨c, hc, hk⟩
  simp [h] at this

theorem Keyed.length_drop (hm : Keyed m) (h : contains k m = true) : (GoMap.drop k m).length + 1 = m.length := by
  obtain ⟨c, hc, rfl⟩ := contains_iff.1 h
  obtain ⟨l₁, l₂, rfl⟩ := List.append_of_mem hc
  have hnodup : (l₁.map Prod.fst ++ c.1 :: l₂.map Prod.fst).Nodup := by simpa [Keyed] using hm
  rw [List.nodup_middle, List.nodup_cons, List.mem_append, not_or] at hnodup
  obtain ⟨⟨h₁, h₂⟩, -⟩ := hnodup
  have hkeep : ∀ l : List (K × V), c.1 ∉ l.map Prod.fst → GoMap.drop c.1 l = l := by
    intro l hl
    refine List.filter_eq_self.2 fun d hd => decide_eq_true fun hdc => hl ?_
    exact List.mem_map.2 ⟨d, hd, hdc⟩
  have hsplit : GoMap.drop c.1 (l₁ ++ c :: l₂) = GoMap.drop c.1 l₁ ++ GoMap.drop c.1 l₂ := by simp [GoMap.drop]
  rw [hsplit, hkeep l₁ h₁, hkeep l₂ h₂]
  simp
  omega

theorem Keyed.length_drop_of_mem (hm : Keyed m) (hc : c ∈ m) : (GoMap.drop c.1 m).length + 1 = m.length :=
  hm.length_drop (contains_iff.2 ⟨c, hc, rfl⟩)

end Drop

end Renop.GoMap
