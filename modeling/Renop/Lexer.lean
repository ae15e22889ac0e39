import Mathlib.Data.List.Basic

/-!
# Lexing with one character of lookahead

A lexer goes over a text in a state; at each character it sees the next one, and may take the two together. `read` pairs each
character with the state it was read in, or with `none` when it was the second of two, so what a loop over the text looks for
can be said of `read` without the loop.
-/

/-- At a character, the next state, and whether the character after it is taken too. -/
structure Lexer (σ : Type) where
  turn : σ → Char → Option Char → σ × Bool

namespace Lexer

variable {σ : Type} (L : Lexer σ)

def read : σ → List Char → List (Char × Option σ)
  | _, [] => []
  | s, [c] => [(c, some s)]
  | s, c :: d :: cs =>
    if (L.turn s c (some d)).2 = true then (c, some s) :: (d, none) :: read (L.turn s c (some d)).1 cs
    else (c, some s) :: read (L.turn s c (some d)).1 (d :: cs)

variable {L} {s : σ} {c d : Char} {cs : List Char}

@[simp] theorem read_nil : L.read s [] = [] := rfl

theorem induct {P : σ → List Char → Prop} (nil : ∀ s, P s [])
    (pair : ∀ s c d cs, (L.turn s c (some d)).2 = true → P (L.turn s c (some d)).1 cs → P s (c :: d :: cs))
    (cons : ∀ s c cs, (L.turn s c cs.head?).2 = false → P (L.turn s c cs.head?).1 cs → P s (c :: cs))
    (hend : ∀ s c, (L.turn s c none).2 = false) (s : σ) (cs : List Char) : P s cs := by
  fun_induction read L s cs with
  | case1 s => exact nil s
  | case2 s c => exact cons s c [] (hend s c) (nil _)
  | case3 s c d cs h ih => exact pair s c d cs h ih
  | case4 s c d cs h ih => exact cons s c (d :: cs) (by simpa using h) ih

end Lexer
