import Mathlib.Data.List.Sort

/-!
# Pages by a cursor

A server answers a cursor with a page and, where there is more, with the cursor of the next page. The pages are complete if
each is the start of what is left at its cursor, and the next cursor leaves the rest of that.
-/

namespace Renop.Pages

variable {α κ : Type} {serve : κ → List α × Option κ}

/-- All pages from a cursor on, or `none` if there is still a next one after `fuel` of them. -/
def follow (serve : κ → List α × Option κ) : Nat → κ → Option (List α)
  | 0, _ => none
  | fuel + 1, cursor =>
    match (serve cursor).2 with
    | none => some (serve cursor).1
    | some next => (follow serve fuel next).map fun rest => (serve cursor).1 ++ rest

theorem follow_last {cursor : κ} (h : (serve cursor).2 = none) (fuel : Nat) :
    follow serve (fuel + 1) cursor = some (serve cursor).1 := by
  rw [follow, h]

theorem follow_next {cursor next : κ} (h : (serve cursor).2 = some next) (fuel : Nat) :
    follow serve (fuel + 1) cursor = (follow serve fuel next).map fun rest => (serve cursor).1 ++ rest := by
  rw [follow, h]

/-- `rest c` is what is left at the cursor `c`. A page is its start, of `n` elements; a full page has a next one. -/
structure Complete (serve : κ → List α × Option κ) (rest : κ → List α) (n : Nat) (next : α → κ) : Prop where
  page (c : κ) : (serve c).1 = (rest c).take n
  last (c : κ) : (rest c).length < n → (serve c).2 = none
  full (c : κ) : n ≤ (rest c).length → ∃ x, ((rest c).take n).getLast? = some x ∧ (serve c).2 = some (next x) ∧
    rest (next x) = (rest c).drop n

theorem Complete.follow {rest : κ → List α} {n : Nat} {next : α → κ} (h : Complete serve rest n next) (hn : 0 < n)
    (c : κ) : follow serve ((rest c).length + 1) c = some (rest c) := by
  have hfuel : ∀ fuel c, (rest c).length < fuel → Pages.follow serve fuel c = some (rest c) := by
    intro fuel
    induction fuel with
    | zero => exact fun c hlt => absurd hlt (Nat.not_lt_zero _)
    | succ fuel ih =>
      intro c hlt
      by_cases hlen : (rest c).length < n
      · rw [follow_last (h.last c hlen), h.page, List.take_of_length_le (by omega)]
      · obtain ⟨x, -, hnext, hrest⟩ := h.full c (by omega)
        have hdrop : (rest (next x)).length < fuel := by
          rw [hrest, List.length_drop]
          omega
        rw [follow_next hnext, ih _ hdrop, h.page, hrest, Option.map_some, List.take_append_drop]
  exact hfuel _ c (Nat.lt_succ_self _)

theorem filter_last_eq_drop [LinearOrder κ] {key : α → κ} {l : List α} (hl : l.Pairwise fun a b => key a < key b)
    {n : Nat} {x : α} (hx : (l.take n).getLast? = some x) : (l.filter fun a => key x < key a) = l.drop n := by
  obtain ⟨init, hinit⟩ := List.getLast?_eq_some_iff.1 hx
  have hsplit : l = init ++ [x] ++ l.drop n := by rw [← hinit, List.take_append_drop]
  generalize l.drop n = tail at hsplit ⊢
  subst hsplit
  obtain ⟨hfront, -, hcross⟩ := List.pairwise_append.1 hl
  have hlow : ∀ a ∈ init ++ [x], ¬ key x < key a := by
    intro a ha
    rcases List.mem_append.1 ha with ha | ha
    · exact not_lt_of_gt ((List.pairwise_append.1 hfront).2.2 a ha x (List.mem_singleton_self x))
    · rw [List.mem_singleton.1 ha]
      exact lt_irrefl _
  have hhigh : ∀ a ∈ tail, key x < key a := fun a ha => hcross x (by simp) a ha
  rw [List.filter_append, List.filter_eq_nil_iff.2 (by simpa using hlow), List.filter_eq_self.2 (by simpa using hhigh),
    List.nil_append]

end Renop.Pages
