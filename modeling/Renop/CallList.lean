import Mathlib.Data.List.Basic

/-!
# Calls under way

Calls are kept in a list, in the order in which they began: a new one is appended, and one that makes a step is changed at its
index.
-/

namespace Renop.CallList

variable {α : Type} {l : List α} {i j : Nat} {f : α → α} {x y : α}

theorem getElem?_modify_eq_some :
    (l.modify i f)[j]? = some x ↔ j ≠ i ∧ l[j]? = some x ∨ j = i ∧ ∃ b, l[i]? = some b ∧ x = f b := by
  rw [List.getElem?_modify]
  by_cases hij : i = j
  · subst hij
    simp only [if_true, Option.map_eq_map, Option.map_eq_some_iff, ne_eq, not_true_eq_false, false_and, true_and, false_or]
    simp only [eq_comm]
  · simp [hij, Ne.symm hij]

theorem getElem?_concat_eq_some : (l ++ [y])[j]? = some x ↔ l[j]? = some x ∨ j = l.length ∧ x = y := by
  rcases Nat.lt_trichotomy j l.length with hj | rfl | hj
  · have hne : j ≠ l.length := by omega
    rw [List.getElem?_append_left hj]
    simp [hne]
  · simp [eq_comm]
  · have hne : j ≠ l.length := by omega
    have hlen : (l ++ [y]).length ≤ j := by
      rw [List.length_append, List.length_singleton]
      omega
    rw [List.getElem?_eq_none hlen, List.getElem?_eq_none (by omega)]
    simp [hne]

theorem getElem?_set_eq_some : (l.set i y)[j]? = some x ↔ j ≠ i ∧ l[j]? = some x ∨ j = i ∧ i < l.length ∧
    x = y := by
  by_cases hij : i = j
  · subst hij
    rw [List.getElem?_set_self']
    by_cases hlt : i < l.length
    · simp [hlt, eq_comm]
    · simp [hlt]
  · rw [List.getElem?_set_ne hij]
    simp [Ne.symm hij]

theorem mem_modify (h : x ∈ l.modify i f) : x ∈ l ∨ ∃ b, l[i]? = some b ∧ x = f b := by
  obtain ⟨j, hj⟩ := List.mem_iff_getElem?.1 h
  rcases getElem?_modify_eq_some.1 hj with ⟨-, hj⟩ | ⟨-, hb⟩
  · exact .inl (List.mem_of_getElem? hj)
  · exact .inr hb

end Renop.CallList
