import Mathlib.Data.List.Basic

/-!
# Padded comparison of lists

Two lists are compared element by element. Where one of them is exhausted, `fill` stands for the elements it lacks, and the
lengths decide last.
-/

namespace Renop.PaddedLex

open Std

variable {α : Type} {cmp : α → α → Ordering} {fill : α}

/-- The comparison without the lengths. -/
def padded (cmp : α → α → Ordering) (fill : α) : List α → List α → Ordering
  | [], ys => ys.foldr (fun y rest => (cmp fill y).then rest) .eq
  | x :: xs, ys => (cmp x (ys.headD fill)).then (padded cmp fill xs ys.tail)

def paddedLex (cmp : α → α → Ordering) (fill : α) : List α → List α → Ordering :=
  compareLex (padded cmp fill) (compareOn List.length)

theorem padded_eq [ReflCmp cmp] (xs ys : List α) :
    padded cmp fill xs ys = (cmp (xs.headD fill) (ys.headD fill)).then (padded cmp fill xs.tail ys.tail) := by
  rcases xs with _ | ⟨x, xs⟩
  · rcases ys with _ | ⟨y, ys⟩
    · simp [padded, ReflCmp.compare_self]
    · simp [padded]
  · rfl

theorem rightpad_succ (n : Nat) (xs : List α) : xs.rightpad (n + 1) fill = xs.headD fill :: xs.tail.rightpad n fill := by
  rcases xs with _ | ⟨x, xs⟩
  · simp [List.rightpad, List.replicate_succ]
  · simp [List.rightpad]

theorem padded_eq_compareLex [ReflCmp cmp] {n : Nat} {xs ys : List α} (hxs : xs.length ≤ n) (hys : ys.length ≤ n) :
    padded cmp fill xs ys = List.compareLex cmp (xs.rightpad n fill) (ys.rightpad n fill) := by
  induction n generalizing xs ys with
  | zero =>
    obtain rfl : xs = [] := List.length_eq_zero_iff.1 (by omega)
    obtain rfl : ys = [] := List.length_eq_zero_iff.1 (by omega)
    rfl
  | succ n ih =>
    have hxs' : xs.tail.length ≤ n := by rw [List.length_tail]; omega
    have hys' : ys.tail.length ≤ n := by rw [List.length_tail]; omega
    rw [padded_eq, rightpad_succ, rightpad_succ, List.compareLex_cons_cons, ih hxs' hys']

theorem exists_length_le (xs ys zs : List α) : ∃ n, xs.length ≤ n ∧ ys.length ≤ n ∧ zs.length ≤ n :=
  ⟨xs.length + ys.length + zs.length, by omega, by omega, by omega⟩

instance [TransCmp cmp] : TransCmp (padded cmp fill) where
  eq_swap {xs ys} := by
    obtain ⟨n, hxs, hys, -⟩ := exists_length_le xs ys []
    rw [padded_eq_compareLex hxs hys, padded_eq_compareLex hys hxs]
    exact OrientedCmp.eq_swap
  isLE_trans {xs ys zs} hxy hyz := by
    obtain ⟨n, hxs, hys, hzs⟩ := exists_length_le xs ys zs
    rw [padded_eq_compareLex hxs hys] at hxy
    rw [padded_eq_compareLex hys hzs] at hyz
    rw [padded_eq_compareLex hxs hzs]
    exact TransCmp.isLE_trans hxy hyz

instance [TransCmp cmp] : TransCmp (paddedLex cmp fill) :=
  inferInstanceAs (TransCmp (compareLex (padded cmp fill) (compareOn List.length)))

theorem rightpad_length (xs : List α) : xs.rightpad xs.length fill = xs := by
  simp [List.rightpad]

instance [TransCmp cmp] [LawfulEqCmp cmp] : LawfulEqCmp (paddedLex cmp fill) where
  compare_self := ReflCmp.compare_self
  eq_of_compare {xs ys} h := by
    obtain ⟨hpad, hlen⟩ := compareLex_eq_eq.1 h
    replace hlen : xs.length = ys.length := LawfulEqOrd.eq_of_compare hlen
    rw [padded_eq_compareLex (Nat.le_refl _) (Nat.le_of_eq hlen.symm)] at hpad
    have heq := LawfulEqCmp.eq_of_compare hpad
    rw [rightpad_length, hlen, rightpad_length] at heq
    exact heq

/-! ### Greatest elements -/

section Greatest
variable {l l' : List α} {x y : α}

/-- `x` is in `l`, and nothing in `l` is above it. -/
def Greatest (cmp : α → α → Ordering) (l : List α) (x : α) : Prop := x ∈ l ∧ ∀ y ∈ l, (cmp y x).isLE

theorem Greatest.perm (h : Greatest cmp l x) (hp : l.Perm l') : Greatest cmp l' x :=
  ⟨hp.mem_iff.1 h.1, fun y hy => h.2 y (hp.mem_iff.2 hy)⟩

theorem Greatest.unique [OrientedCmp cmp] (hx : Greatest cmp l x) (hy : Greatest cmp l y) : cmp x y = .eq :=
  OrientedCmp.isLE_antisymm (hy.2 x hx.1) (hx.2 y hy.1)

theorem Greatest.singleton [ReflCmp cmp] : Greatest cmp [x] x :=
  ⟨List.mem_singleton_self x, fun y hy => by rw [List.mem_singleton.1 hy]; exact ReflCmp.isLE_rfl⟩

theorem Greatest.getLast [ReflCmp cmp] (hl : l.Pairwise fun a b => (cmp a b).isLE) (hne : l ≠ []) :
    Greatest cmp l (l.getLast hne) := by
  refine ⟨List.getLast_mem hne, fun y hy => ?_⟩
  rw [← List.dropLast_concat_getLast hne] at hl hy
  rcases List.mem_append.1 hy with hy | hy
  · exact (List.pairwise_append.1 hl).2.2 y hy _ (List.mem_singleton_self _)
  · rw [List.mem_singleton.1 hy]
    exact ReflCmp.isLE_rfl

theorem Greatest.concat [TransCmp cmp] (h : Greatest cmp l x) : Greatest cmp (l ++ [y]) (if cmp y x = .gt then y else x) := by
  have hrefl : (cmp y y).isLE := ReflCmp.isLE_rfl
  split
  · rename_i hgt
    have hle : (cmp x y).isLE := by rw [OrientedCmp.gt_iff_lt.1 hgt]; rfl
    refine ⟨by simp, fun z hz => ?_⟩
    rcases List.mem_append.1 hz with hz | hz
    · exact TransCmp.isLE_trans (h.2 z hz) hle
    · rwa [List.mem_singleton.1 hz]
  · rename_i hgt
    refine ⟨List.mem_append_left _ h.1, fun z hz => ?_⟩
    rcases List.mem_append.1 hz with hz | hz
    · exact h.2 z hz
    · rw [List.mem_singleton.1 hz]
      cases hc : cmp y x <;> simp_all
end Greatest

end Renop.PaddedLex
