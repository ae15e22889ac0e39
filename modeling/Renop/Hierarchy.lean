import Mathlib.Data.List.Basic
import Mathlib.Data.List.Infix

/-!
# Names in a hierarchy

A name such as `com.example.lib` or `com/example/lib` is a list of symbols with a separator, and one name
contains another if it is equal to it or followed in it by a separator. Two names that contain a third are
comparable, so of all names that contain a given one the longest is unique; `longest` is the usual loop
that finds it.
-/

namespace Hierarchy

variable {α : Type}

/-- `a` is `b` or one of its ancestors. -/
def Above (sep : α) (a b : List α) : Prop := b = a ∨ a ++ [sep] <+: b

namespace Above

variable {sep : α} {a b c : List α}

theorem refl (sep : α) (a : List α) : Above sep a a := .inl rfl

theorem isPrefix (h : Above sep a b) : a <+: b := by
  rcases h with rfl | h
  · exact List.prefix_rfl
  · exact (List.prefix_append a [sep]).trans h

theorem trans (hab : Above sep a b) (hbc : Above sep b c) : Above sep a c := by
  rcases hab with rfl | hab
  · exact hbc
  · exact .inr (hab.trans hbc.isPrefix)

theorem append (sep : α) (a r : List α) : Above sep a (a ++ sep :: r) := by
  refine .inr ?_
  rw [show a ++ sep :: r = (a ++ [sep]) ++ r by simp]
  exact List.prefix_append _ _

theorem total (ha : Above sep a c) (hb : Above sep b c) : Above sep a b ∨ Above sep b a := by
  rcases ha with rfl | ha
  · exact .inr hb
  rcases hb with rfl | hb
  · exact .inl (.inr ha)
  -- both are followed by a separator in `c`
  have key : ∀ {x y : List α}, x ++ [sep] <+: y ++ [sep] → Above sep x y := by
    intro x y h
    rcases List.prefix_concat_iff.1 h with h | h
    · exact .inl (List.append_cancel_right h).symm
    · exact .inr h
  rcases List.prefix_or_prefix_of_prefix ha hb with h | h
  · exact .inl (key h)
  · exact .inr (key h)

theorem length_le (h : Above sep a b) : a.length ≤ b.length := h.isPrefix.length_le

theorem eq_of_length (h : Above sep a b) (hl : b.length ≤ a.length) : a = b :=
  h.isPrefix.eq_of_length (Nat.le_antisymm h.length_le hl)

end Above

/-! ### The ancestors of a name -/

theorem intercalate_append {sep : List α} {l m : List (List α)} (hl : l ≠ []) (hm : m ≠ []) :
    sep.intercalate (l ++ m) = sep.intercalate l ++ sep ++ sep.intercalate m := by
  induction l with
  | nil => exact absurd rfl hl
  | cons x l ih =>
    cases l with
    | nil => simp [List.intercalate_cons_of_ne_nil hm]
    | cons y l =>
      rw [List.cons_append, List.intercalate_cons_of_ne_nil (by simp), ih (by simp), List.intercalate_cons_cons]
      simp

variable {β : Type} (size : β → Nat) (p : β → Bool)

/-- The first of the largest elements with `p`. -/
def longest (l : List β) : Option β :=
  l.foldl (fun best b => if p b then
    match best with
    | none => some b
    | some m => if size m < size b then some b else some m
    else best) none

variable {size p}

/-- What the loop knows after the elements `l`. -/
theorem longest_spec (l : List β) :
    match longest size p l with
    | none => ∀ b ∈ l, p b = false
    | some m => m ∈ l ∧ p m = true ∧ ∀ b ∈ l, p b = true → size b ≤ size m := by
  induction l using List.reverseRecOn with
  | nil => simp [longest]
  | append_singleton l b ih =>
    unfold longest at ih ⊢
    rw [List.foldl_append]
    simp only [List.foldl_cons, List.foldl_nil]
    by_cases hb : p b = true
    · rw [if_pos hb]
      cases hm : List.foldl _ none l with
      | none =>
        rw [hm] at ih
        refine ⟨by simp, hb, fun c hc hpc => ?_⟩
        rcases List.mem_append.1 hc with hc | hc
        · rw [ih c hc] at hpc
          cases hpc
        · rw [List.mem_singleton.1 hc]
      | some m =>
        rw [hm] at ih
        obtain ⟨hmem, hpm, hmax⟩ := ih
        dsimp only
        by_cases hlt : size m < size b
        · rw [if_pos hlt]
          refine ⟨by simp, hb, fun c hc hpc => ?_⟩
          rcases List.mem_append.1 hc with hc | hc
          · exact (hmax c hc hpc).trans hlt.le
          · rw [List.mem_singleton.1 hc]
        · rw [if_neg hlt]
          refine ⟨by simp [hmem], hpm, fun c hc hpc => ?_⟩
          rcases List.mem_append.1 hc with hc | hc
          · exact hmax c hc hpc
          · rw [List.mem_singleton.1 hc]
            exact Nat.le_of_not_lt hlt
    · rw [if_neg hb]
      have hb : p b = false := by simpa using hb
      cases hm : List.foldl _ none l with
      | none =>
        rw [hm] at ih
        intro c hc
        rcases List.mem_append.1 hc with hc | hc
        · exact ih c hc
        · rw [List.mem_singleton.1 hc, hb]
      | some m =>
        rw [hm] at ih
        refine ⟨by simp [ih.1], ih.2.1, fun c hc hpc => ?_⟩
        rcases List.mem_append.1 hc with hc | hc
        · exact ih.2.2 c hc hpc
        · rw [List.mem_singleton.1 hc, hb] at hpc
          cases hpc

theorem longest_eq_none {l : List β} : longest size p l = none ↔ ∀ b ∈ l, p b = false := by
  have := @longest_spec _ size p l
  constructor
  · intro h
    rw [h] at this
    exact this
  · intro h
    cases hm : longest size p l with
    | none => rfl
    | some m =>
      rw [hm] at this
      obtain ⟨hmem, hpm, -⟩ := this
      rw [h m hmem] at hpm
      cases hpm

theorem longest_eq_some {l : List β} {m : β} (h : longest size p l = some m) :
    m ∈ l ∧ p m = true ∧ ∀ b ∈ l, p b = true → size b ≤ size m := by
  have := @longest_spec _ size p l
  rwa [h] at this

end Hierarchy
