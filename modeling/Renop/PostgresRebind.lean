import Mathlib
import Renop.Lexer

/-!
# Numbered placeholders

`RebindPostgres` turns the placeholders of a query into `$1`, `$2` and so on, and leaves alone what is quoted or in a comment.
`marks` is what a query means where the arguments are given in order, and `positional` what it means where they are given by
number; the rebound query means by number what the query meant in order.
-/

namespace Renop.Postgres

/-! ### The loop -/

/-- The flags of the loop, of which at most one is set. -/
inductive Mode
  | plain
  | lineComment
  | blockComment
  | singleQuote
  | doubleQuote
deriving DecidableEq, Repr

/-- The flags after a byte, and whether the loop passes over the next one. -/
def turn : Mode → Char → Option Char → Mode × Bool
  | .lineComment, c, _ => (if c = '\n' then .plain else .lineComment, false)
  | .blockComment, c, next => if c = '*' ∧ next = some '/' then (.plain, true) else (.blockComment, false)
  | .singleQuote, c, next =>
    if c = '\'' then if next = some '\'' then (.singleQuote, true) else (.plain, false) else (.singleQuote, false)
  | .doubleQuote, c, next =>
    if c = '"' then if next = some '"' then (.doubleQuote, true) else (.plain, false) else (.doubleQuote, false)
  | .plain, c, next =>
    if c = '\'' then (.singleQuote, false)
    else if c = '"' then (.doubleQuote, false)
    else if c = '-' ∧ next = some '-' then (.lineComment, true)
    else if c = '/' ∧ next = some '*' then (.blockComment, true)
    else (.plain, false)

/-- A piece of a query: text, or the place of an argument. -/
inductive Token
  | text (c : Char)
  | param (n : Nat)
deriving DecidableEq, Repr

abbrev Reading := List (Char × Option Mode)

/-- The digits read so far after a dollar. -/
def flush (digits : List Char) : List Token := if digits = [] then [.text '$'] else [.param (Nat.ofDigitChars 10 digits 0)]

/-- No dollar outside quotes and comments, and no digit right after a placeholder. -/
def Unnumbered : Reading → Prop
  | [] => True
  | x :: xs => x ≠ ('$', some .plain) ∧ (x = ('?', some .plain) → ∀ y ∈ xs.head?, y.1.isDigit = false) ∧
      Unnumbered xs

instance Unnumbered.decide : (xs : Reading) → Decidable (Unnumbered xs)
  | [] => isTrue trivial
  | x :: xs =>
    have := Unnumbered.decide xs
    inferInstanceAs (Decidable (x ≠ ('$', some .plain) ∧
      (x = ('?', some .plain) → ∀ y ∈ xs.head?, y.1.isDigit = false) ∧
      Unnumbered xs))

/-! ### What the loop makes of a reading -/

end Renop.Postgres
