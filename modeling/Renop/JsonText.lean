import Mathlib.Data.List.Forall2
import Mathlib.Data.List.TakeWhile
import Mathlib.Data.Option.Basic

/-!
# JSON texts

A JSON text is a sequence of tokens, and a value has exactly one sequence of tokens. The lexer takes one
character after the other, so what it makes of a text is put together from what it makes of the parts;
the parser takes the tokens back to the value (`parse_eq_some`).
-/

namespace Renop.JsonText

inductive Json
  | null
  | bool (b : Bool)
  /-- The literal as it is written. -/
  | num (literal : String)
  | str (s : String)
  | arr (elems : List Json)
  | obj (members : List (String × Json))

inductive Token
  | lbrace | rbrace | lbracket | rbracket | colon | comma
  | null
  | bool (b : Bool)
  | num (literal : String)
  | str (s : String)
deriving DecidableEq, Repr

/-! ### Tokens -/

/-- A character of a string, or four hexadecimal digits. -/
inductive CodeUnit
  | char (c : Char)
  | code (n : Nat)
deriving DecidableEq, Repr

def isHigh (n : Nat) : Bool := 0xd800 ≤ n && n < 0xdc00

def isLow (n : Nat) : Bool := 0xdc00 ≤ n && n < 0xe000

/-- A surrogate on its own is replaced. -/
def ofCode (n : Nat) : Char := if isHigh n || isLow n then Char.ofNat 0xfffd else Char.ofNat n

def decodeUnits : List CodeUnit → List Char
  | [] => []
  | .char c :: us => c :: decodeUnits us
  | .code n :: .code m :: us =>
    if isHigh n && isLow m then Char.ofNat (0x10000 + (n - 0xd800) * 0x400 + (m - 0xdc00)) :: decodeUnits us
    else ofCode n :: decodeUnits (.code m :: us)
  | .code n :: us => ofCode n :: decodeUnits us

def skipDigits : List Char → Option (List Char)
  | [] => none
  | c :: cs => if c.isDigit then some (cs.dropWhile Char.isDigit) else none

def skipInt : List Char → Option (List Char)
  | '0' :: cs => some cs
  | cs => skipDigits cs

def skipFrac : List Char → Option (List Char)
  | '.' :: cs => skipDigits cs
  | cs => some cs

def skipExp : List Char → Option (List Char)
  | 'e' :: cs | 'E' :: cs =>
    match cs with
    | '+' :: ds | '-' :: ds => skipDigits ds
    | _ => skipDigits cs
  | cs => some cs

def isNumber (cs : List Char) : Bool :=
  let unsigned := match cs with
    | '-' :: ds => ds
    | _ => cs
  ((skipInt unsigned).bind skipFrac).bind skipExp == some []

def wordToken (cs : List Char) : Option Token :=
  if cs = ['n', 'u', 'l', 'l'] then some .null
  else if cs = ['t', 'r', 'u', 'e'] then some (.bool true)
  else if cs = ['f', 'a', 'l', 's', 'e'] then some (.bool false)
  else if isNumber cs then some (.num (String.ofList cs)) else none

def isSpace (c : Char) : Bool := c = ' ' || c = '\t' || c = '\n' || c = '\r'

def isWordChar (c : Char) : Bool := c.isAlphanum || c = '+' || c = '-' || c = '.'

def punctuation : Char → Option Token
  | '{' => some .lbrace
  | '}' => some .rbrace
  | '[' => some .lbracket
  | ']' => some .rbracket
  | ':' => some .colon
  | ',' => some .comma
  | _ => none

/-- What stands for the character after a backslash. -/
def unescape : Char → Option Char
  | '"' => some '"'
  | '\\' => some '\\'
  | '/' => some '/'
  | 'b' => some (Char.ofNat 8)
  | 'f' => some (Char.ofNat 12)
  | 'n' => some '\n'
  | 'r' => some '\r'
  | 't' => some '\t'
  | _ => none

def hexVal (c : Char) : Option Nat :=
  if '0' ≤ c ∧ c ≤ '9' then some (c.toNat - '0'.toNat)
  else if 'a' ≤ c ∧ c ≤ 'f' then some (c.toNat - 'a'.toNat + 10)
  else if 'A' ≤ c ∧ c ≤ 'F' then some (c.toNat - 'A'.toNat + 10)
  else none

/-! ### The lexer -/

/-- What has been read of the token the lexer is in, the last character first. -/
inductive Mode
  | outside
  | word (acc : List Char)
  | str (acc : List CodeUnit)
  | esc (acc : List CodeUnit)
  /-- In the digits of a code: how many are to come after the next, and the value so far. -/
  | hex (acc : List CodeUnit) (left value : Nat)

structure Lexer where
  mode : Mode
  /-- The last token first. -/
  tokens : List Token

/-- A character outside of every token. -/
def start (ts : List Token) (c : Char) : Option Lexer :=
  if isSpace c then some ⟨.outside, ts⟩
  else if c = '"' then some ⟨.str [], ts⟩
  else if isWordChar c then some ⟨.word [c], ts⟩
  else (punctuation c).map fun t => ⟨.outside, t :: ts⟩

def step (s : Lexer) (c : Char) : Option Lexer :=
  match s.mode with
  | .outside => start s.tokens c
  | .word acc =>
    if isWordChar c then some ⟨.word (c :: acc), s.tokens⟩
    else (wordToken acc.reverse).bind fun t => start (t :: s.tokens) c
  | .str acc =>
    if c = '"' then some ⟨.outside, .str (String.ofList (decodeUnits acc.reverse)) :: s.tokens⟩
    else if c = '\\' then some ⟨.esc acc, s.tokens⟩
    else if c.toNat < 0x20 then none
    else some ⟨.str (.char c :: acc), s.tokens⟩
  | .esc acc =>
    if c = 'u' then some ⟨.hex acc 3 0, s.tokens⟩
    else (unescape c).map fun d => ⟨.str (.char d :: acc), s.tokens⟩
  | .hex acc left value =>
    (hexVal c).map fun d =>
      match left with
      | 0 => ⟨.str (.code (value * 16 + d) :: acc), s.tokens⟩
      | left + 1 => ⟨.hex acc left (value * 16 + d), s.tokens⟩

def finish (s : Lexer) : Option (List Token) :=
  match s.mode with
  | .outside => some s.tokens.reverse
  | .word acc => (wordToken acc.reverse).map fun t => (t :: s.tokens).reverse
  | _ => none

def lex (cs : List Char) : Option (List Token) := (cs.foldlM step ⟨.outside, []⟩).bind finish

/-! ### The tokens of a value -/

mutual

def tokens : Json → List Token
  | .null => [.null]
  | .bool b => [.bool b]
  | .num literal => [.num literal]
  | .str s => [.str s]
  | .arr [] => [.lbracket, .rbracket]
  | .arr (v :: vs) => .lbracket :: (tokens v ++ elemTokens vs)
  | .obj [] => [.lbrace, .rbrace]
  | .obj ((k, v) :: ms) => .lbrace :: .str k :: .colon :: (tokens v ++ memberTokens ms)

/-- The elements after the first, with the bracket. -/
def elemTokens : List Json → List Token
  | [] => [.rbracket]
  | v :: vs => .comma :: (tokens v ++ elemTokens vs)

/-- The members after the first, with the brace. -/
def memberTokens : List (String × Json) → List Token
  | [] => [.rbrace]
  | (k, v) :: ms => .comma :: .str k :: .colon :: (tokens v ++ memberTokens ms)

end

/-! ### The parser -/

mutual

def value : Nat → List Token → Option (Json × List Token)
  | 0, _ => none
  | n + 1, ts =>
    match ts with
    | .null :: ts => some (.null, ts)
    | .bool b :: ts => some (.bool b, ts)
    | .num literal :: ts => some (.num literal, ts)
    | .str s :: ts => some (.str s, ts)
    | .lbracket :: .rbracket :: ts => some (.arr [], ts)
    | .lbracket :: ts =>
      (value n ts).bind fun (v, ts) => (elems n ts).map fun (vs, ts) => (.arr (v :: vs), ts)
    | .lbrace :: .rbrace :: ts => some (.obj [], ts)
    | .lbrace :: .str k :: .colon :: ts =>
      (value n ts).bind fun (v, ts) => (members n ts).map fun (ms, ts) => (.obj ((k, v) :: ms), ts)
    | _ => none

def elems : Nat → List Token → Option (List Json × List Token)
  | 0, _ => none
  | n + 1, ts =>
    match ts with
    | .rbracket :: ts => some ([], ts)
    | .comma :: ts => (value n ts).bind fun (v, ts) => (elems n ts).map fun (vs, ts) => (v :: vs, ts)
    | _ => none

def members : Nat → List Token → Option (List (String × Json) × List Token)
  | 0, _ => none
  | n + 1, ts =>
    match ts with
    | .rbrace :: ts => some ([], ts)
    | .comma :: .str k :: .colon :: ts =>
      (value n ts).bind fun (v, ts) => (members n ts).map fun (ms, ts) => ((k, v) :: ms, ts)
    | _ => none

end

def parseTokens (ts : List Token) : Option Json :=
  match value ts.length ts with
  | some (v, []) => some v
  | _ => none

def parse (cs : List Char) : Option Json := (lex cs).bind parseTokens

/-- The text is a JSON document. -/
def Valid (cs : List Char) : Prop := (parse cs).isSome

/-! ### The parser inverts the tokens -/

theorem tokens_ne_nil (v : Json) : tokens v ≠ [] := by
  rcases v with _ | _ | _ | _ | (_ | _) | (_ | ⟨⟨_, _⟩, _⟩) <;> simp [tokens]

mutual

theorem value_tokens : ∀ (v : Json) (n : Nat) (r : List Token), (tokens v).length ≤ n →
    value n (tokens v ++ r) = some (v, r)
  | .null, n, r, h => by
    obtain ⟨n, rfl⟩ : ∃ m, n = m + 1 := Nat.exists_eq_add_of_le' h
    simp [tokens, value]
  | .bool b, n, r, h => by
    obtain ⟨n, rfl⟩ : ∃ m, n = m + 1 := Nat.exists_eq_add_of_le' h
    simp [tokens, value]
  | .num literal, n, r, h => by
    obtain ⟨n, rfl⟩ : ∃ m, n = m + 1 := Nat.exists_eq_add_of_le' h
    simp [tokens, value]
  | .str s, n, r, h => by
    obtain ⟨n, rfl⟩ : ∃ m, n = m + 1 := Nat.exists_eq_add_of_le' h
    simp [tokens, value]
  | .arr [], 0, r, h => by simp [tokens] at h
  | .arr [], n + 1, r, _ => by simp [tokens, value]
  | .arr (v :: vs), 0, r, h => by simp [tokens] at h
  | .arr (v :: vs), n + 1, r, h => by
    simp only [tokens, List.length_cons, List.length_append] at h
    have hv := value_tokens v n (elemTokens vs ++ r) (by omega)
    have hvs := elems_tokens vs n r (by omega)
    obtain ⟨t, ts, ht⟩ : ∃ t ts, tokens v = t :: ts := List.exists_cons_of_ne_nil (tokens_ne_nil v)
    have hne : t ≠ .rbracket := by
      rintro rfl
      rw [ht] at hv
      cases n <;> simp [value] at hv
    have hstep : value (n + 1) (.lbracket :: (tokens v ++ (elemTokens vs ++ r))) =
        (value n (tokens v ++ (elemTokens vs ++ r))).bind fun (v, ts) => (elems n ts).map fun (vs, ts) =>
            (.arr (v :: vs), ts) := by
      rw [ht]
      cases t <;> first | exact absurd rfl hne | rfl
    simp only [tokens, List.cons_append, List.append_assoc, hstep, hv, hvs, Option.bind_some, Option.map_some]
  | .obj [], 0, r, h => by simp [tokens] at h
  | .obj [], n + 1, r, _ => by simp [tokens, value]
  | .obj ((k, v) :: ms), 0, r, h => by simp [tokens] at h
  | .obj ((k, v) :: ms), n + 1, r, h => by
    simp only [tokens, List.length_cons, List.length_append] at h
    have hv := value_tokens v n (memberTokens ms ++ r) (by omega)
    have hms := members_tokens ms n r (by omega)
    simp only [tokens, List.cons_append, List.append_assoc, value, hv, hms, Option.bind_some, Option.map_some]

theorem elems_tokens : ∀ (vs : List Json) (n : Nat) (r : List Token), (elemTokens vs).length ≤ n →
    elems n (elemTokens vs ++ r) = some (vs, r)
  | [], 0, r, h => by simp [elemTokens] at h
  | [], n + 1, r, _ => by simp [elemTokens, elems]
  | v :: vs, 0, r, h => by simp [elemTokens] at h
  | v :: vs, n + 1, r, h => by
    simp only [elemTokens, List.length_cons, List.length_append] at h
    have hv := value_tokens v n (elemTokens vs ++ r) (by omega)
    have hvs := elems_tokens vs n r (by omega)
    simp only [elemTokens, List.cons_append, List.append_assoc, elems, hv, hvs, Option.bind_some, Option.map_some]

theorem members_tokens : ∀ (ms : List (String × Json)) (n : Nat) (r : List Token), (memberTokens ms).length ≤ n →
    members n (memberTokens ms ++ r) = some (ms, r)
  | [], 0, r, h => by simp [memberTokens] at h
  | [], n + 1, r, _ => by simp [memberTokens, members]
  | (k, v) :: ms, 0, r, h => by simp [memberTokens] at h
  | (k, v) :: ms, n + 1, r, h => by
    simp only [memberTokens, List.length_cons, List.length_append] at h
    have hv := value_tokens v n (memberTokens ms ++ r) (by omega)
    have hms := members_tokens ms n r (by omega)
    simp only [memberTokens, List.cons_append, List.append_assoc, members, hv, hms, Option.bind_some, Option.map_some]

end

theorem then_eq_some {α β γ σ : Type} {o : Option (α × σ)} {f : σ → Option (β × σ)} (g : α → β → γ) {x : γ} {r : σ} :
    (o.bind fun p => (f p.2).map fun q => (g p.1 q.1, q.2)) = some (x, r) ↔
      ∃ a s b, o = some (a, s) ∧ f s = some (b, r) ∧ g a b = x := by
  simp only [Option.bind_eq_some_iff, Option.map_eq_some_iff, Prod.exists, Prod.mk.injEq]
  constructor
  · rintro ⟨a, s, ho, b, s', hf, rfl, rfl⟩
    exact ⟨a, s, b, ho, hf, rfl⟩
  · rintro ⟨a, s, b, ho, hf, rfl⟩
    exact ⟨a, s, ho, b, r, hf, rfl, rfl⟩

/-- What the three parsers take off the front is what they give back. -/
theorem parsers_sound (n : Nat) :
    (∀ ts v r, value n ts = some (v, r) → ts = tokens v ++ r) ∧
    (∀ ts vs r, elems n ts = some (vs, r) → ts = elemTokens vs ++ r) ∧
    (∀ ts ms r, members n ts = some (ms, r) → ts = memberTokens ms ++ r) := by
  induction n with
  | zero => simp [value, elems, members]
  | succ n ih =>
    obtain ⟨hvalue, helems, hmembers⟩ := ih
    refine ⟨fun ts v r h => ?_, fun ts vs r h => ?_, fun ts ms r h => ?_⟩
    · unfold value at h
      dsimp only at h
      split at h
      case h_6 ts _ =>
        obtain ⟨v, ts', vs, hv, hvs, rfl⟩ := (then_eq_some fun v vs => Json.arr (v :: vs)).1 h
        rw [hvalue _ _ _ hv, helems _ _ _ hvs]
        simp [tokens]
      case h_8 k ts =>
        obtain ⟨v, ts', ms, hv, hms, rfl⟩ := (then_eq_some fun v ms => Json.obj ((k, v) :: ms)).1 h
        rw [hvalue _ _ _ hv, hmembers _ _ _ hms]
        simp [tokens]
      case h_9 => cases h
      all_goals
        obtain ⟨rfl, rfl⟩ := Prod.mk.inj (Option.some.inj h)
        simp [tokens]
    · unfold elems at h
      dsimp only at h
      split at h
      · obtain ⟨rfl, rfl⟩ := Prod.mk.inj (Option.some.inj h)
        simp [elemTokens]
      · obtain ⟨v, ts', vs, hv, hvs, rfl⟩ := (then_eq_some List.cons).1 h
        rw [hvalue _ _ _ hv, helems _ _ _ hvs]
        simp [elemTokens]
      · cases h
    · unfold members at h
      dsimp only at h
      split at h
      · obtain ⟨rfl, rfl⟩ := Prod.mk.inj (Option.some.inj h)
        simp [memberTokens]
      next k ts =>
        obtain ⟨v, ts', ms, hv, hms, rfl⟩ := (then_eq_some fun v ms => (k, v) :: ms).1 h
        rw [hvalue _ _ _ hv, hmembers _ _ _ hms]
        simp [memberTokens]
      · cases h

theorem parse_eq_some {cs : List Char} {v : Json} : parse cs = some v ↔ lex cs = some (tokens v) := by
  rw [parse, Option.bind_eq_some_iff]
  constructor
  · rintro ⟨ts, hlex, h⟩
    rw [parseTokens] at h
    split at h
    · obtain rfl := Option.some.inj h
      have hts := (parsers_sound _).1 _ _ _ ‹_›
      rw [hlex, hts, List.append_nil]
    · cases h
  · intro hlex
    refine ⟨_, hlex, ?_⟩
    have hv := value_tokens v (tokens v).length [] (Nat.le_refl _)
    rw [List.append_nil] at hv
    rw [parseTokens, hv]

/-! ### Lexing a text by its parts -/

/-- From outside of every token, the characters are read as the tokens. -/
def Lexes (cs : List Char) (ts : List Token) : Prop :=
  ∀ acc, cs.foldlM step ⟨.outside, acc⟩ = some ⟨.outside, ts.reverse ++ acc⟩

/-- From outside of every token, the characters cannot be read. -/
def Stuck (cs : List Char) : Prop := ∀ acc, cs.foldlM step ⟨.outside, acc⟩ = none

/-- Within a string, the characters are read as the units. -/
def Spells (cs : List Char) (us : List CodeUnit) : Prop :=
  ∀ acc ts, cs.foldlM step ⟨.str acc, ts⟩ = some ⟨.str (us.reverse ++ acc), ts⟩

section Parts
variable {cs ds : List Char} {ts us : List Token} {xs ys : List CodeUnit} {c : Char} {t : Token}

theorem Lexes.nil : Lexes [] [] := fun _ => rfl

theorem Lexes.append (h : Lexes cs ts) (h' : Lexes ds us) : Lexes (cs ++ ds) (ts ++ us) := by
  intro acc
  rw [List.foldlM_append, h acc, Option.bind_eq_bind, Option.bind_some, h' _]
  simp

theorem Lexes.cons (h : Lexes [c] [t]) (h' : Lexes ds us) : Lexes (c :: ds) (t :: us) := h.append h'

theorem Lexes.lex (h : Lexes cs ts) : lex cs = some ts := by
  rw [JsonText.lex, h []]
  simp [finish]

theorem Stuck.lex (h : Stuck cs) : lex cs = none := by rw [JsonText.lex, h []]; rfl

theorem Stuck.append (h : Stuck cs) (ds : List Char) : Stuck (cs ++ ds) := by
  intro acc
  rw [List.foldlM_append, h acc]
  rfl

theorem Lexes.stuck (h : Lexes cs ts) (h' : Stuck ds) : Stuck (cs ++ ds) := by
  intro acc
  rw [List.foldlM_append, h acc, Option.bind_eq_bind, Option.bind_some, h' _]

theorem Spells.nil : Spells [] [] := fun _ _ => rfl

theorem Spells.append (h : Spells cs xs) (h' : Spells ds ys) : Spells (cs ++ ds) (xs ++ ys) := by
  intro acc ts
  rw [List.foldlM_append, h acc ts, Option.bind_eq_bind, Option.bind_some, h' _ _]
  simp

theorem lexes_punctuation (hc : punctuation c = some t) : Lexes [c] [t] := by
  intro acc
  have hplain : isSpace c = false ∧ c ≠ '"' ∧ isWordChar c = false := by
    unfold punctuation at hc
    split at hc <;> first | decide | cases hc
  obtain ⟨hs, hq, hw⟩ := hplain
  simp [step, start, hs, hq, hw, hc]

theorem lexes_string (h : Spells cs xs) : Lexes ('"' :: (cs ++ ['"'])) [.str (String.ofList (decodeUnits xs))] := by
  intro acc
  have hopen : step ⟨.outside, acc⟩ '"' = some ⟨.str [], acc⟩ := rfl
  rw [List.foldlM_cons, hopen, Option.bind_eq_bind, Option.bind_some, List.foldlM_append, h [] acc]
  simp [step]

theorem stuck_string (h : ∀ ts, cs.foldlM step ⟨.str [], ts⟩ = none) : Stuck ('"' :: cs) := by
  intro acc
  have hopen : step ⟨.outside, acc⟩ '"' = some ⟨.str [], acc⟩ := rfl
  rw [List.foldlM_cons, hopen, Option.bind_eq_bind, Option.bind_some, h]

theorem lexes_word {w : List Char} {x : Char} (hx : isWordChar x = true) (hq : isSpace x = false ∧ x ≠ '"')
    (hw : ∀ y ∈ w, isWordChar y = true) (hword : wordToken (x :: w) = some t) {u : Token} (hc : punctuation c = some u) :
    Lexes (x :: (w ++ [c])) [t, u] := by
  have hrun : ∀ (w acc : List Char) ts, (∀ y ∈ w, isWordChar y = true) →
      w.foldlM step ⟨.word acc, ts⟩ = some ⟨.word (w.reverse ++ acc), ts⟩ := by
    intro w
    induction w with
    | nil => intro acc ts _; rfl
    | cons y w ih =>
      intro acc ts hw
      have hy := hw y (List.mem_cons_self ..)
      have hstep : step ⟨.word acc, ts⟩ y = some ⟨.word (y :: acc), ts⟩ := by simp [step, hy]
      rw [List.foldlM_cons, hstep, Option.bind_eq_bind, Option.bind_some, ih _ _ fun z hz => hw z (List.mem_cons_of_mem _ hz)]
      simp
  intro acc
  have hopen : step ⟨.outside, acc⟩ x = some ⟨.word [x], acc⟩ := by simp [step, start, hx, hq.1, hq.2]
  have hend : isWordChar c = false := by
    unfold punctuation at hc
    split at hc <;> first | decide | cases hc
  have hclose := lexes_punctuation hc (t :: acc)
  rw [List.foldlM_cons, hopen, Option.bind_eq_bind, Option.bind_some, List.foldlM_append, hrun w [x] acc hw,
    Option.bind_eq_bind, Option.bind_some]
  simp only [List.foldlM_cons, List.foldlM_nil, step] at hclose ⊢
  simp_all

/-! ### Lists with commas -/

/-- Every text with a comma before it. -/
def commas (es : List (List Char)) : List Char := es.flatMap (',' :: ·)

/-- The texts with commas between them. -/
def joined : List (List Char) → List Char
  | [] => []
  | e :: es => e ++ commas es

theorem lexes_elems {es : List (List Char)} {vs : List Json} (h : List.Forall₂ (fun e v => Lexes e (tokens v)) es vs) :
    Lexes (commas es ++ [']']) (elemTokens vs) := by
  induction h with
  | nil => exact lexes_punctuation rfl
  | cons he _ ih =>
    have hcons := (lexes_punctuation (c := ',') rfl).cons (he.append ih)
    simpa [commas, elemTokens] using hcons

theorem lexes_members {es : List (List Char)} {ms : List (String × Json)}
    (h : List.Forall₂ (fun e m => Lexes e (.str m.1 :: .colon :: tokens m.2)) es ms) :
    Lexes (commas es ++ ['}']) (memberTokens ms) := by
  induction h with
  | nil => exact lexes_punctuation rfl
  | cons he _ ih =>
    have hcons := (lexes_punctuation (c := ',') rfl).cons (he.append ih)
    simpa [commas, memberTokens] using hcons

theorem lexes_array {es : List (List Char)} {vs : List Json} (h : List.Forall₂ (fun e v => Lexes e (tokens v)) es vs) :
    Lexes ('[' :: (joined es ++ [']'])) (tokens (.arr vs)) := by
  have hopen := lexes_punctuation (c := '[') rfl
  rcases h with _ | ⟨he, hes⟩
  · exact hopen.cons (lexes_punctuation rfl)
  · have hcons := hopen.cons (he.append (lexes_elems hes))
    simpa [joined, tokens] using hcons

theorem lexes_object {es : List (List Char)} {ms : List (String × Json)}
    (h : List.Forall₂ (fun e m => Lexes e (.str m.1 :: .colon :: tokens m.2)) es ms) :
    Lexes ('{' :: (joined es ++ ['}'])) (tokens (.obj ms)) := by
  have hopen := lexes_punctuation (c := '{') rfl
  rcases h with _ | ⟨he, hes⟩
  · exact hopen.cons (lexes_punctuation rfl)
  · have hcons := hopen.cons (he.append (lexes_members hes))
    simpa [joined, tokens] using hcons

theorem lexes_or_stuck_commas {es : List (List Char)} (hes : ∀ e ∈ es, (∃ ts, Lexes e ts) ∨ Stuck e) :
    ((∃ ts, Lexes (commas es) ts) ∧ ∀ e ∈ es, ∃ ts, Lexes e ts) ∨
      (Stuck (commas es) ∧ ∃ e ∈ es, Stuck e) := by
  induction es with
  | nil => exact .inl ⟨⟨[], .nil⟩, fun e he => absurd he List.not_mem_nil⟩
  | cons e es ih =>
    have hcomma := lexes_punctuation (c := ',') rfl
    have hsplit : commas (e :: es) = [','] ++ (e ++ commas es) := by simp [commas]
    rw [hsplit]
    rcases hes e (List.mem_cons_self ..) with ⟨ts, he⟩ | he
    · rcases ih fun x hx => hes x (List.mem_cons_of_mem _ hx) with ⟨⟨us, hus⟩, hall⟩ | ⟨hus, x, hx, hbad⟩
      · refine .inl ⟨⟨_, hcomma.append (he.append hus)⟩, fun x hx => ?_⟩
        rcases List.mem_cons.1 hx with rfl | hx
        · exact ⟨ts, he⟩
        · exact hall x hx
      · exact .inr ⟨hcomma.stuck (he.stuck hus), x, List.mem_cons_of_mem _ hx, hbad⟩
    · exact .inr ⟨hcomma.stuck (he.append _), e, List.mem_cons_self .., he⟩

theorem Lexes.not_stuck (h : Lexes cs ts) : ¬ Stuck cs := by
  intro hs
  have heq := (h []).symm.trans (hs [])
  cases heq

theorem lexes_commas {es : List (List Char)} (hes : ∀ e ∈ es, ∃ ts, Lexes e ts) : ∃ ts, Lexes (commas es) ts := by
  rcases lexes_or_stuck_commas fun e he => .inl (hes e he) with ⟨h, -⟩ | ⟨-, e, he, hbad⟩
  · exact h
  · obtain ⟨ts, hts⟩ := hes e he
    exact absurd hbad hts.not_stuck

theorem stuck_commas {es : List (List Char)} (hes : ∀ e ∈ es, (∃ ts, Lexes e ts) ∨ Stuck e) (hbad : ∃ e ∈ es, Stuck e) :
    Stuck (commas es) := by
  rcases lexes_or_stuck_commas hes with ⟨-, hall⟩ | ⟨h, -⟩
  · obtain ⟨e, he, hstuck⟩ := hbad
    obtain ⟨ts, hts⟩ := hall e he
    exact absurd hstuck hts.not_stuck
  · exact h

theorem lexes_joined {es : List (List Char)} (hes : ∀ e ∈ es, ∃ ts, Lexes e ts) : ∃ ts, Lexes (joined es) ts := by
  cases es with
  | nil => exact ⟨[], .nil⟩
  | cons e es =>
    obtain ⟨ts, he⟩ := hes e (List.mem_cons_self ..)
    obtain ⟨us, hus⟩ := lexes_commas fun x hx => hes x (List.mem_cons_of_mem _ hx)
    exact ⟨_, he.append hus⟩

theorem stuck_joined {es : List (List Char)} (hes : ∀ e ∈ es, (∃ ts, Lexes e ts) ∨ Stuck e) (hbad : ∃ e ∈ es, Stuck e) :
    Stuck (joined es) := by
  cases es with
  | nil => obtain ⟨_, hmem, _⟩ := hbad; cases hmem
  | cons e es =>
    rcases hes e (List.mem_cons_self ..) with ⟨ts, he⟩ | he
    · refine he.stuck (stuck_commas (fun y hy => hes y (List.mem_cons_of_mem _ hy)) ?_)
      obtain ⟨x, hx, hxs⟩ := hbad
      rcases List.mem_cons.1 hx with rfl | hx
      · exact absurd hxs he.not_stuck
      · exact ⟨x, hx, hxs⟩
    · exact he.append _

/-! ### Decimal integers -/

def formatInt : Int → List Char
  | .ofNat n => Nat.toDigits 10 n
  | .negSucc n => '-' :: Nat.toDigits 10 (n + 1)

theorem head_toDigits {n : Nat} (hn : 0 < n) : ∀ ds, Nat.toDigits 10 n ≠ '0' :: ds := by
  induction n using Nat.base_induction 10 (by decide) with
  | single m hm =>
    intro ds h
    rw [Nat.toDigits_of_lt_base hm] at h
    have hd := (List.cons.inj h).1
    have hcode := Nat.toNat_digitChar_of_lt_ten hm
    rw [hd] at hcode
    have : (48 : Nat) = 48 + m := hcode
    omega
  | digit m k hk hm ih =>
    intro ds h
    rw [← Nat.toDigits_append_toDigits (by decide) hm hk] at h
    obtain ⟨d, es, he⟩ := List.exists_cons_of_ne_nil (Nat.toDigits_ne_nil (n := m) (b := 10))
    rw [he, List.cons_append] at h
    rw [(List.cons.inj h).1] at he
    exact ih hm es he

theorem skipInt_toDigits (n : Nat) : skipInt (Nat.toDigits 10 n) = some [] := by
  rcases Nat.eq_zero_or_pos n with rfl | hn
  · rfl
  obtain ⟨d, ds, hd⟩ := List.exists_cons_of_ne_nil (Nat.toDigits_ne_nil (n := n) (b := 10))
  have hdigit : ∀ c ∈ d :: ds, c.isDigit = true := by
    intro c hc
    rw [← hd] at hc
    exact Nat.isDigit_of_mem_toDigits (by decide) (by decide) hc
  have hzero : d ≠ '0' := by
    rintro rfl
    exact head_toDigits hn ds hd
  have hdrop : ds.dropWhile Char.isDigit = [] := List.dropWhile_eq_nil_iff.2 fun c hc => hdigit c (List.mem_cons_of_mem _ hc)
  rw [hd, skipInt]
  · simp [skipDigits, hdigit d (List.mem_cons_self ..), hdrop]
  · rintro cs h
    exact hzero (List.cons.inj h).1

theorem wordChar_of_isDigit {c : Char} (h : c.isDigit = true) :
    isWordChar c = true ∧ isSpace c = false ∧ c ≠ '"' ∧ c ≠ '-' := by
  have hword : isWordChar c = true := by simp [isWordChar, Char.isAlphanum, h]
  refine ⟨hword, ?_, ?_, ?_⟩
  · by_contra hs
    simp only [isSpace, Bool.not_eq_false, Bool.or_eq_true, decide_eq_true_eq] at hs
    rcases hs with ((rfl | rfl) | rfl) | rfl <;> exact absurd h (by decide)
  · rintro rfl
    exact absurd h (by decide)
  · rintro rfl
    exact absurd h (by decide)

theorem wordToken_formatInt (n : Int) : wordToken (formatInt n) = some (.num (String.ofList (formatInt n))) := by
  have hnumber : isNumber (formatInt n) = true := by
    rcases n with n | n
    · obtain ⟨d, ds, hd⟩ := List.exists_cons_of_ne_nil (Nat.toDigits_ne_nil (n := n) (b := 10))
      have hdigit : d.isDigit = true := Nat.isDigit_of_mem_toDigits (b := 10) (n := n) (by decide) (by decide)
        (by rw [hd]; simp)
      have hskip := skipInt_toDigits n
      rw [hd] at hskip
      have hsign : isNumber (d :: ds) = (((skipInt (d :: ds)).bind skipFrac).bind skipExp == some []) := by
        unfold isNumber
        split
        · next heq => exact absurd (List.cons.inj heq).1 (wordChar_of_isDigit hdigit).2.2.2
        · rfl
      rw [formatInt, hd, hsign, hskip]
      rfl
    · show (((skipInt (Nat.toDigits 10 (n + 1))).bind skipFrac).bind skipExp == some []) = true
      rw [skipInt_toDigits]
      rfl
  have hword : ∀ w : List Char, isNumber w = false → formatInt n ≠ w := by
    rintro w hw rfl
    rw [hnumber] at hw
    cases hw
  rw [wordToken, if_neg (hword _ rfl), if_neg (hword _ rfl), if_neg (hword _ rfl), if_pos hnumber]

theorem lexes_int (n : Int) {u : Token} (hc : punctuation c = some u) :
    Lexes (formatInt n ++ [c]) [.num (String.ofList (formatInt n)), u] := by
  have hdigits : ∀ (m : Nat), ∀ y ∈ Nat.toDigits 10 m, y.isDigit = true :=
    fun m y hy => Nat.isDigit_of_mem_toDigits (by decide) (by decide) hy
  have hword := wordToken_formatInt n
  rcases n with n | n
  · obtain ⟨d, ds, hd⟩ := List.exists_cons_of_ne_nil (Nat.toDigits_ne_nil (n := n) (b := 10))
    have hall := hdigits n
    rw [hd] at hall
    obtain ⟨hx, hs, hq, -⟩ := wordChar_of_isDigit (hall d (List.mem_cons_self ..))
    have hformat : formatInt (.ofNat n) = d :: ds := hd
    rw [hformat] at hword ⊢
    exact lexes_word hx ⟨hs, hq⟩ (fun y hy => (wordChar_of_isDigit (hall y (List.mem_cons_of_mem _ hy))).1) hword hc
  · have hformat : formatInt (.negSucc n) = '-' :: Nat.toDigits 10 (n + 1) := rfl
    rw [hformat] at hword ⊢
    exact lexes_word rfl ⟨rfl, by decide⟩ (fun y hy => (wordChar_of_isDigit (hdigits _ y hy)).1) hword hc

/-- The integer of a decimal literal. -/
def readInt : List Char → Int
  | '-' :: cs => -(Nat.ofDigitChars 10 cs 0 : Int)
  | cs => Nat.ofDigitChars 10 cs 0

theorem readInt_formatInt (n : Int) : readInt (formatInt n) = n := by
  rcases n with n | n
  · obtain ⟨d, ds, hd⟩ := List.exists_cons_of_ne_nil (Nat.toDigits_ne_nil (n := n) (b := 10))
    have hdigit : d.isDigit = true := Nat.isDigit_of_mem_toDigits (b := 10) (n := n) (by decide) (by decide)
      (by rw [hd]; simp)
    have hsign : readInt (d :: ds) = (Nat.ofDigitChars 10 (d :: ds) 0 : Int) := by
      unfold readInt
      split
      · next heq => exact absurd (List.cons.inj heq).1 (wordChar_of_isDigit hdigit).2.2.2
      · rfl
    rw [formatInt, hd, hsign, ← hd, Nat.ofDigitChars_ten_toDigits]
    rfl
  · show -(Nat.ofDigitChars 10 (Nat.toDigits 10 (n + 1)) 0 : Int) = Int.negSucc n
    rw [Nat.ofDigitChars_ten_toDigits]
    rfl

end Parts

end Renop.JsonText
