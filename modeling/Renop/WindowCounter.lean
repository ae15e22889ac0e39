import Mathlib.Data.List.Perm.Basic
import Mathlib.Order.Lattice

/-!
# Counters of a window

A counter that starts anew when its window changes. A ticket remembers the window it was taken in, and gives its unit back as
long as that window lasts. `Counts` says that a counter is the number of the tickets of its window that were not given back,
and `AtMost` that no window, also none of the past, has more tickets than a limit.
-/

namespace WindowCounter

structure Counter (κ : Type) where
  start : κ
  used : Int
deriving DecidableEq, Repr

variable {κ τ : Type} {p q : τ → Bool} {key : τ → κ} {tickets rest : List τ} {t : τ} {c : Counter κ}

namespace Counter

def take (c : Counter κ) : Counter κ := { c with used := c.used + 1 }

@[simp] theorem take_start (c : Counter κ) : c.take.start = c.start := rfl

@[simp] theorem take_used (c : Counter κ) : c.take.used = c.used + 1 := rfl

end Counter

variable [LinearOrder κ]

namespace Counter

def roll (c : Counter κ) (start : κ) : Counter κ := if c.start ≠ start then ⟨start, 0⟩ else c

def give (c : Counter κ) (start : κ) : Counter κ := if c.start = start ∧
    0 < c.used then { c with used := c.used - 1 } else c

@[simp] theorem roll_start (c : Counter κ) (start : κ) : (c.roll start).start = start := by
  unfold roll
  split
  · rfl
  · rename_i h
    simpa using h

@[simp] theorem give_start (c : Counter κ) (start : κ) : (c.give start).start = c.start := by
  unfold give
  split <;> rfl

end Counter

/-- The tickets of a window that count. -/
def issued (p : τ → Bool) (key : τ → κ) (tickets : List τ) (w : κ) : Nat := tickets.countP fun t => p t && key t = w

theorem issued_perm {l l' : List τ} (h : l.Perm l') (w : κ) : issued p key l w = issued p key l' w := h.countP_eq _

theorem issued_cons (p : τ → Bool) (key : τ → κ) (t : τ) (tickets : List τ) (w : κ) :
    issued p key (t :: tickets) w = issued p key tickets w + if p t = true ∧ key t = w then 1 else 0 := by
  simp [issued, List.countP_cons]

theorem issued_mono (h : ∀ t, q t = true → p t = true) (w : κ) : issued q key tickets w ≤ issued p key tickets w := by
  refine List.countP_mono_left fun t _ ht => ?_
  simp only [Bool.and_eq_true, decide_eq_true_eq] at ht ⊢
  exact ⟨h t ht.1, ht.2⟩

/-- The counter is the number of its window's tickets, and no ticket is of a later window. -/
structure Counts (p : τ → Bool) (key : τ → κ) (tickets : List τ) (c : Counter κ) : Prop where
  used : c.used = issued p key tickets c.start
  recent : ∀ t ∈ tickets, key t ≤ c.start

namespace Counts

theorem empty (c : Counter κ) (hc : c.used = 0) : Counts p key [] c := ⟨by simp [hc, issued], by simp⟩

theorem roll (h : Counts p key tickets c) {start : κ} (hle : ∀ t ∈ tickets, c.start ≤ start) :
    Counts p key tickets (c.roll start) := by
  refine ⟨?_, fun t ht => ?_⟩
  · unfold Counter.roll
    split
    · rename_i hne
      -- no ticket is of a window that comes later
      have hnone : issued p key tickets start = 0 := by
        refine List.countP_eq_zero.2 fun t ht => ?_
        have hlt : key t < start := lt_of_le_of_lt (h.recent t ht) (lt_of_le_of_ne (hle t ht) hne)
        simp [hlt.ne]
      show (0 : Int) = issued p key tickets start
      rw [hnone]
      rfl
    · exact h.used
  · rw [Counter.roll_start]
    exact (h.recent t ht).trans (hle t ht)

theorem take (h : Counts p key tickets c) (hkey : key t = c.start) (hp : p t = true) :
    Counts p key (t :: tickets) c.take := by
  refine ⟨?_, fun t' ht' => ?_⟩
  · rw [Counter.take_used, Counter.take_start, h.used, issued_cons, if_pos ⟨hp, hkey⟩]
    omega
  · rcases List.mem_cons.1 ht' with rfl | ht'
    · exact hkey.le
    · exact h.recent t' ht'

theorem pass (h : Counts p key tickets c) (hkey : key t ≤ c.start) (hp : p t = false) : Counts p key (t :: tickets) c := by
  refine ⟨?_, fun t' ht' => ?_⟩
  · rw [h.used, issued_cons, if_neg (by simp [hp])]
    omega
  · rcases List.mem_cons.1 ht' with rfl | ht'
    · exact hkey
    · exact h.recent t' ht'

theorem give (h : Counts p key tickets c) (hperm : tickets.Perm (t :: rest)) :
    Counts p key rest (if p t = true then c.give (key t) else c) := by
  have hissued := h.used
  rw [issued_perm hperm, issued_cons] at hissued
  have hrecent : ∀ t' ∈ rest, key t' ≤ c.start := fun t' ht' =>
    h.recent t' (hperm.mem_iff.2 (List.mem_cons_of_mem _ ht'))
  refine ⟨?_, fun t' ht' => ?_⟩
  · by_cases hp : p t = true
    · simp only [hp, if_true, Counter.give_start, true_and] at hissued ⊢
      unfold Counter.give
      by_cases hkey : key t = c.start
      · rw [if_pos hkey] at hissued
        rw [if_pos ⟨hkey.symm, by omega⟩]
        show c.used - 1 = _
        omega
      · rw [if_neg hkey] at hissued
        rw [if_neg fun hand => hkey hand.1.symm]
        omega
    · rw [if_neg hp]
      rw [if_neg fun hand => hp hand.1] at hissued
      omega
  · split
    · rw [Counter.give_start]
      exact hrecent t' ht'
    · exact hrecent t' ht'

end Counts

/-- No window has more than `limit` of the tickets. -/
def AtMost (limit : Int) (q : τ → Bool) (key : τ → κ) (tickets : List τ) :
    Prop := ∀ w, (issued q key tickets w : Int) ≤ limit

namespace AtMost
variable {limit : Int}

theorem empty (h : 0 ≤ limit) : AtMost limit q key [] := fun w => by simpa [issued] using h

theorem take (h : AtMost limit q key tickets) (hc : Counts p key tickets c) (hqp : ∀ t, q t = true → p t = true)
    (hkey : key t = c.start) (hroom : c.used < limit) : AtMost limit q key (t :: tickets) := by
  intro w
  rw [issued_cons]
  split
  · rename_i hw
    have hle : issued q key tickets w ≤ issued p key tickets w := issued_mono hqp w
    have hused := hc.used
    rw [← hkey, hw.2] at hused
    omega
  · exact h w

theorem pass (h : AtMost limit q key tickets) (hq : q t = false) : AtMost limit q key (t :: tickets) := by
  intro w
  rw [issued_cons, if_neg (by simp [hq])]
  exact h w

theorem give (h : AtMost limit q key tickets) (hperm : tickets.Perm (t :: rest)) : AtMost limit q key rest := by
  intro w
  have hw := h w
  rw [issued_perm hperm, issued_cons] at hw
  omega

end AtMost

end WindowCounter
