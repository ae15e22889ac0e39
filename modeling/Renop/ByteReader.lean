import Mathlib

/-!
# Readers that deliver in pieces

A reader hands out its text in the pieces in which it arrives, of any sizes and some of them empty. `copy` is the loop that
moves at most `limit` items through a buffer into a sink. What it moves is a matter of the whole text alone.
-/

namespace ByteReader

variable {α σ : Type}

/-- A place to write to. What it holds afterwards does not depend on how the text was cut. -/
structure Sink (σ α : Type) where
  write : σ → List α → Option σ
  write_nil : ∀ s, write s [] = some s
  write_append : ∀ s a b, write s (a ++ b) = (write s a).bind fun s' => write s' b

namespace Sink

/-- The buffer that only grows. -/
def buffer (α : Type) : Sink (List α) α where
  write s a := some (s ++ a)
  write_nil s := by simp
  write_append s a b := by simp

/-- Both sinks, the first one first. -/
def multi {τ : Type} (left : Sink σ α) (right : Sink τ α) : Sink (σ × τ) α where
  write s a := (left.write s.1 a).bind fun l => (right.write s.2 a).map fun r => (l, r)
  write_nil s := by simp [left.write_nil, right.write_nil]
  write_append s a b := by
    rw [left.write_append, right.write_append]
    cases left.write s.1 a with
    | none => rfl
    | some l =>
      cases right.write s.2 a with
      | none => cases hl : left.write l b <;> simp [hl]
      | some r => rfl

end Sink

/-- One call for at most `n` items, `none` after the last piece. -/
def read (n : Nat) : List (List α) → Option (List α × List (List α))
  | [] => none
  | piece :: rest => if piece.length ≤ n then some (piece, rest) else some (piece.take n, piece.drop n :: rest)

/-- What there is left to do for a caller. -/
def weight (pieces : List (List α)) : Nat := pieces.flatten.length + pieces.length

theorem read_some {n : Nat} {pieces rest : List (List α)} {got : List α} (h : read n pieces = some (got, rest)) :
    pieces.flatten = got ++ rest.flatten ∧ got.length ≤ n := by
  cases pieces with
  | nil => cases h
  | cons piece tail =>
    rw [read] at h
    split at h
    · next hle =>
      cases h
      exact ⟨rfl, hle⟩
    · cases h
      refine ⟨?_, List.length_take_le _ _⟩
      rw [List.flatten_cons, List.flatten_cons, ← List.append_assoc, List.take_append_drop]

theorem read_weight {n : Nat} {pieces rest : List (List α)} {got : List α} (hn : 0 < n)
    (h : read n pieces = some (got, rest)) : weight rest < weight pieces := by
  cases pieces with
  | nil => cases h
  | cons piece tail =>
    rw [read] at h
    split at h
    · cases h
      simp only [weight, List.flatten_cons, List.length_append, List.length_cons]
      omega
    · next hlt =>
      cases h
      simp only [weight, List.flatten_cons, List.length_append, List.length_cons, List.length_drop]
      omega

theorem read_none {n : Nat} {pieces : List (List α)} (h : read n pieces = none) : pieces = [] := by
  cases pieces with
  | nil => rfl
  | cons piece tail =>
    rw [read] at h
    split at h <;> cases h

/-- Moves up to `limit` items in calls of at most `size`; also gives what is left of the limit and of the pieces. -/
def copy (sink : Sink σ α) (size : Nat) (hsize : 0 < size) (limit : Nat) (pieces : List (List α)) (s : σ) :
    Option (σ × Nat × List (List α)) :=
  if _hl : 0 < limit then
    match _hr : read (min size limit) pieces with
    | none => some (s, limit, pieces)
    | some (got, rest) =>
      match sink.write s got with
      | none => none
      | some s' => copy sink size hsize (limit - got.length) rest s'
  else some (s, limit, pieces)
termination_by weight pieces
decreasing_by exact read_weight (show 0 < min size limit by omega) ‹_›

variable {sink : Sink σ α} {size : Nat} {hsize : 0 < size}

theorem copy_eq (limit : Nat) (pieces : List (List α)) (s : σ) :
    ∃ rest, rest.flatten = pieces.flatten.drop limit ∧
      copy sink size hsize limit pieces s =
        (sink.write s (pieces.flatten.take limit)).map fun s' => (s', limit - pieces.flatten.length, rest) := by
  fun_induction copy sink size hsize limit pieces s with
  | case1 limit pieces s hl hr =>
    obtain rfl := read_none hr
    exact ⟨[], by simp, by simp [sink.write_nil]⟩
  | case2 limit pieces s hl got rest hr hw =>
    obtain ⟨hflat, hle⟩ := read_some hr
    have htake : (got ++ rest.flatten).take limit = got ++ rest.flatten.take (limit - got.length) := by
      rw [List.take_append, List.take_of_length_le (by omega)]
    refine ⟨[pieces.flatten.drop limit], by simp, ?_⟩
    rw [hflat, htake, sink.write_append, hw]
    rfl
  | case3 limit pieces s hl got rest hr s' hw ih =>
    obtain ⟨hflat, hle⟩ := read_some hr
    obtain ⟨last, hlast, hcopy⟩ := ih
    have htake : (got ++ rest.flatten).take limit = got ++ rest.flatten.take (limit - got.length) := by
      rw [List.take_append, List.take_of_length_le (by omega)]
    have hdrop : (got ++ rest.flatten).drop limit = rest.flatten.drop (limit - got.length) := by
      rw [List.drop_append, List.drop_of_length_le (by omega), List.nil_append]
    have hleft : limit - (got ++ rest.flatten).length = limit - got.length - rest.flatten.length := by
      rw [List.length_append]
      omega
    refine ⟨last, ?_, ?_⟩
    · rw [hflat, hdrop, hlast]
    · rw [hcopy, hflat, htake, hleft, sink.write_append, hw]
      rfl
  | case4 limit pieces s hl =>
    obtain rfl : limit = 0 := by omega
    exact ⟨pieces, by simp, by simp [sink.write_nil]⟩

end ByteReader
