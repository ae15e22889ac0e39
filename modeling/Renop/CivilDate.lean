import Mathlib

/-!
# Windows of the calendar

Strictly increasing boundaries cut the integers into windows. The months of the Gregorian calendar are such windows of days.
Years begin in March here, so that the day a leap year adds is its last, and day 0 is the first of March of the year 0.
-/

namespace Renop.CivilDate

/-! ### Tilings -/

section Tiling
variable {boundary : Int → Int} {i j m n : Int}

theorem lt_of_index_lt (h : StrictMono boundary) (hi : n < boundary (i + 1)) (hj : boundary j ≤ m) (hlt : i < j) :
    n < m := by
  have hle : boundary (i + 1) ≤ boundary j := h.monotone (by omega)
  omega

theorem index_unique (h : StrictMono boundary) (hi : boundary i ≤ n) (hi' : n < boundary (i + 1)) (hj : boundary j ≤ n)
    (hj' : n < boundary (j + 1)) : i = j := by
  rcases lt_trichotomy i j with hlt | heq | hlt
  · exact absurd (lt_of_index_lt h hi' hj hlt) (lt_irrefl n)
  · exact heq
  · exact absurd (lt_of_index_lt h hj' hi hlt) (lt_irrefl n)

theorem disjoint_or_eq (h : StrictMono boundary) (i j : Int) :
    i = j ∨ boundary (i + 1) ≤ boundary j ∨ boundary (j + 1) ≤ boundary i := by
  rcases lt_trichotomy i j with hlt | heq | hlt
  · exact .inr (.inl (h.monotone (by omega)))
  · exact .inl heq
  · exact .inr (.inr (h.monotone (by omega)))
end Tiling

/-! ### Years -/

/-- The first day of a year. -/
def yearStart (y : Int) : Int := 365 * y + y / 4 - y / 100 + y / 400

/-- The days of four centuries, without those that leap years add; a multiple of 365 begins a year. -/
def squeezed (doe : Int) : Int := doe - doe / 1460 + doe / 36524 - doe / 146096

theorem squeezed_mono : Monotone squeezed := by
  refine monotone_int_of_le_succ fun doe => ?_
  unfold squeezed
  omega

theorem squeezed_year : ∀ y < 400, squeezed (yearStart (y : Nat)) / 365 = y ∧ squeezed (yearStart ((y : Nat) + 1) - 1) /
    365 = y := by
  decide +kernel

theorem yearStart_era (era y : Int) : yearStart (400 * era + y) = 146097 * era + yearStart y := by
  unfold yearStart
  omega

theorem yearOfEra {doe : Int} (h0 : 0 ≤ doe) (h1 : doe < 146097) :
    0 ≤ squeezed doe / 365 ∧ squeezed doe / 365 < 400 ∧ yearStart (squeezed doe / 365) ≤ doe ∧
      doe < yearStart (squeezed doe / 365 + 1) := by
  have hlo : squeezed 0 ≤ squeezed doe := squeezed_mono h0
  have hhi : squeezed doe ≤ squeezed 146096 := squeezed_mono (by omega)
  have hz : squeezed 0 = 0 := by decide
  have hm : squeezed 146096 = 145999 := by decide
  obtain ⟨y, hy⟩ : ∃ y : Nat, squeezed doe / 365 = y := ⟨(squeezed doe / 365).toNat, by omega⟩
  have hy400 : y < 400 := by omega
  rw [hy]
  refine ⟨by omega, by omega, ?_, ?_⟩
  · by_contra hlt
    have hy0 : y ≠ 0 := by
      rintro rfl
      exact hlt (by simpa [yearStart] using h0)
    have hle : squeezed doe ≤ squeezed (yearStart ((y - 1 : Nat) + 1) - 1) := by
      refine squeezed_mono ?_
      rw [show ((y - 1 : Nat) : Int) + 1 = y by omega]
      omega
    have hdiv := (squeezed_year (y - 1) (by omega)).2
    omega
  · by_contra hge
    by_cases hlast : y = 399
    · subst hlast
      have : yearStart (((399 : Nat) : Int) + 1) = 146097 := by decide
      omega
    · have hle : squeezed (yearStart (y + 1 : Nat)) ≤ squeezed doe := squeezed_mono (by push_cast; omega)
      have hdiv := (squeezed_year (y + 1) (by omega)).1
      omega

/-- The year of a day. -/
def yearOf (z : Int) : Int := 400 * (z / 146097) + squeezed (z % 146097) / 365

theorem yearOf_spec (z : Int) : yearStart (yearOf z) ≤ z ∧ z < yearStart (yearOf z + 1) := by
  obtain ⟨-, -, hle, hlt⟩ := yearOfEra (show 0 ≤ z % 146097 by omega) (by omega)
  unfold yearOf
  rw [Int.add_assoc, yearStart_era, yearStart_era]
  omega

theorem yearStart_succ (y : Int) : yearStart y + 365 ≤ yearStart (y + 1) ∧ yearStart (y + 1) ≤ yearStart y + 366 := by
  unfold yearStart
  omega

/-! ### Months -/

/-- The first day of a month; month 0 is March of the year 0. -/
def monthStart (k : Int) : Int := yearStart (k / 12) + (153 * (k % 12) + 2) / 5

theorem monthStart_succ (k : Int) :
    monthStart (k + 1) - monthStart k =
      if k % 12 = 11 then yearStart (k / 12 + 1) - yearStart (k / 12) - 337
      else if k % 12 ∈ [1, 3, 6, 8] then 30 else 31 := by
  unfold monthStart
  split_ifs with h11 h30
  · have hdiv : (k + 1) / 12 = k / 12 + 1 := by omega
    have hmod : (k + 1) % 12 = 0 := by omega
    rw [hdiv, hmod, h11]
    omega
  · have hdiv : (k + 1) / 12 = k / 12 := by omega
    have hmod : (k + 1) % 12 = k % 12 + 1 := by omega
    simp only [List.mem_cons, List.not_mem_nil, or_false] at h30
    rw [hdiv, hmod]
    omega
  · have hdiv : (k + 1) / 12 = k / 12 := by omega
    have hmod : (k + 1) % 12 = k % 12 + 1 := by omega
    simp only [List.mem_cons, List.not_mem_nil, or_false, not_or] at h30
    have hlong : k % 12 = 0 ∨ k % 12 = 2 ∨ k % 12 = 4 ∨ k % 12 = 5 ∨ k % 12 = 7 ∨ k % 12 = 9 ∨
      k % 12 = 10 := by omega
    rw [hdiv, hmod]
    rcases hlong with h | h | h | h | h | h | h <;> rw [h] <;> omega

theorem monthStart_bounds (k : Int) : monthStart k + 28 ≤ monthStart (k + 1) ∧
    monthStart (k + 1) ≤ monthStart k + 31 := by
  have hlen := monthStart_succ k
  have hyear := yearStart_succ (k / 12)
  split_ifs at hlen <;> omega

/-- The month of a day. -/
def monthOf (z : Int) : Int := 12 * yearOf z + (5 * (z - yearStart (yearOf z)) + 2) / 153

theorem monthOf_div_mod (z : Int) :
    monthOf z / 12 = yearOf z ∧ monthOf z % 12 = (5 * (z - yearStart (yearOf z)) + 2) / 153 := by
  obtain ⟨hle, hlt⟩ := yearOf_spec z
  have hsucc := (yearStart_succ (yearOf z)).2
  unfold monthOf
  omega

theorem monthStart_monthOf (z : Int) :
    monthStart (monthOf z) = yearStart (yearOf z) + (153 * ((5 * (z - yearStart (yearOf z)) + 2) / 153) + 2) / 5 := by
  rw [monthStart, (monthOf_div_mod z).1, (monthOf_div_mod z).2]

theorem monthOf_spec (z : Int) : monthStart (monthOf z) ≤ z ∧ z < monthStart (monthOf z + 1) := by
  obtain ⟨hle, hlt⟩ := yearOf_spec z
  have hsucc := (yearStart_succ (yearOf z)).2
  have hlen := monthStart_succ (monthOf z)
  have hstart := monthStart_monthOf z
  rw [(monthOf_div_mod z).1, (monthOf_div_mod z).2] at hlen
  simp only [List.mem_cons, List.not_mem_nil, or_false] at hlen
  refine ⟨by omega, ?_⟩
  split_ifs at hlen <;> omega

theorem sub_yearStart (z : Int) :
    z - yearStart (yearOf z) =
      z % 146097 - (365 * (squeezed (z % 146097) / 365) + squeezed (z % 146097) / 365 / 4 - squeezed (z % 146097) / 365 /
        100) := by
  obtain ⟨h0, h400, -, -⟩ := yearOfEra (show 0 ≤ z % 146097 by omega) (by omega)
  rw [yearOf, yearStart_era]
  unfold yearStart
  omega

end Renop.CivilDate
