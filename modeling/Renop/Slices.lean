import Mathlib.Data.List.Range
import Mathlib.Algebra.Order.Group.Nat

/-!
# Lists that are written piece by piece

`overwrite` writes a piece into a list at an offset, `slice` reads one back. A list is the concatenation of its slices.
-/

namespace Renop.Slices

variable {α : Type} {l p : List α} {off off' len : Nat}

/-- `l` with `p` written at `off`. -/
def overwrite (l : List α) (off : Nat) (p : List α) : List α := l.take off ++ p ++ l.drop (off + p.length)

def slice (l : List α) (off len : Nat) : List α := (l.drop off).take len

theorem length_overwrite (h : off + p.length ≤ l.length) : (overwrite l off p).length = l.length := by
  simp only [overwrite, List.length_append, List.length_take, List.length_drop]
  omega

theorem getElem?_slice (i : Nat) : (slice l off len)[i]? = if i < len then l[off + i]? else none := by
  rw [slice, List.getElem?_take, List.getElem?_drop]

theorem getElem?_overwrite (h : off + p.length ≤ l.length) (i : Nat) :
    (overwrite l off p)[i]? = if i < off then l[i]? else if i < off + p.length then p[i - off]? else l[i]? := by
  have hoff : (l.take off).length = off := by
    rw [List.length_take]
    omega
  rw [overwrite, List.append_assoc, List.getElem?_append, hoff]
  split_ifs with h₁ h₂
  · rw [List.getElem?_take, if_pos h₁]
  · rw [List.getElem?_append_left (by omega)]
  · rw [List.getElem?_append_right (by omega), List.getElem?_drop]
    congr 1
    omega

theorem slice_overwrite_of_disjoint (h : off + p.length ≤ l.length) (hd : off' + len ≤ off ∨ off + p.length ≤ off') :
    slice (overwrite l off p) off' len = slice l off' len := by
  refine List.ext_getElem? fun i => ?_
  rw [getElem?_slice, getElem?_slice, getElem?_overwrite h]
  split_ifs <;> first | rfl | omega

theorem slice_overwrite_extend {w : Nat} (h : off + w + p.length ≤ l.length) :
    slice (overwrite l (off + w) p) off (w + p.length) = slice l off w ++ p := by
  have hlen : (slice l off w).length = w := by
    simp only [slice, List.length_take, List.length_drop]
    omega
  refine List.ext_getElem? fun i => ?_
  rw [getElem?_slice, getElem?_overwrite h, List.getElem?_append, hlen, getElem?_slice]
  split_ifs with h₁ h₂ h₃ <;> first | rfl | omega | skip
  · congr 1
    omega
  · rw [List.getElem?_eq_none (by omega)]

theorem length_slice (h : off + len ≤ l.length) : (slice l off len).length = len := by
  simp only [slice, List.length_take, List.length_drop]
  omega

theorem flatMap_slice (l : List α) (k n : Nat) : (List.range n).flatMap (fun i => slice l (i * k) k) = l.take (n * k) := by
  induction n with
  | zero => simp
  | succ n ih =>
    rw [List.range_succ, List.flatMap_append, ih, Nat.succ_mul, List.take_add]
    simp [slice]

theorem flatMap_slice_of_le {k n : Nat} (h : l.length ≤ n * k) :
    (List.range n).flatMap (fun i => slice l (i * k) k) = l := by
  rw [flatMap_slice, List.take_of_length_le h]

end Renop.Slices
