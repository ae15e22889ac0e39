import Renop.GoMap
import Renop.IndexRebuild
import Renop.JsonText

/-!
# The index as a JSON text

`WriteJSONTo` writes the paths with the quotes of Go, `ReadJSONFrom` and `UnmarshalJSON` read them with
those of JSON. The two agree but for the escapes `\a`, `\v`, `\x` and `\U`, which JSON does not have.

The decoder is a third-party package and a parameter; a stream is read as the document it is a text of.
-/

namespace Renop.Index

open JsonText (Json Lexes Stuck Spells CodeUnit decodeUnits formatInt joined commas)

/-! ### Quoting -/

section Quote
variable (isPrint : Char → Bool)

def hexDigit (n : Nat) : Char := if n < 10 then Char.ofNat (48 + n) else Char.ofNat (87 + n)

/-- The lower digits of `n`, as many as the width. -/
def hexDigits : Nat → Nat → List Char
  | 0, _ => []
  | width + 1, n => hexDigits width (n / 16) ++ [hexDigit (n % 16)]

/-- The control characters with a letter of their own. -/
def controlEscape : Nat → Option Char
  | 7 => some 'a'
  | 8 => some 'b'
  | 12 => some 'f'
  | 10 => some 'n'
  | 13 => some 'r'
  | 9 => some 't'
  | 11 => some 'v'
  | _ => none

/-- `strconv.appendEscapedRune` for the quote `"`, with `strconv.IsPrint` as a parameter. -/
def appendEscapedRune (r : Char) : List Char :=
  if r = '"' ∨ r = '\\' then ['\\', r]
  else if isPrint r then [r]
  else
    match controlEscape r.toNat with
    | some e => ['\\', e]
    | none =>
      if r.toNat < 0x20 ∨ r.toNat = 0x7f then '\\' :: 'x' :: hexDigits 2 r.toNat
      else if r.toNat < 0x10000 then '\\' :: 'u' :: hexDigits 4 r.toNat
      else '\\' :: 'U' :: hexDigits 8 r.toNat

/-- `strconv.AppendQuote` -/
def appendQuote (s : String) : List Char := '"' :: (s.toList.flatMap (appendEscapedRune isPrint) ++ ['"'])

/-- A byte from `0x7f` on is DEL or part of a character from `0x80` on. -/
def isSpecial (c : Char) : Bool := c = '"' || c = '\\' || c.toNat < 0x20 || c.toNat ≥ 0x7f

def appendFastQuote (s : String) : List Char :=
  if s.toList.any isSpecial then appendQuote isPrint s else '"' :: (s.toList ++ ['"'])

/-- What `strconv.IsPrint` is for ASCII. -/
def PrintsAscii : Prop := ∀ c : Char, c.toNat < 0x80 → (isPrint c = true ↔ 0x20 ≤ c.toNat ∧ c.toNat ≤ 0x7e)

/-- The characters that are quoted as JSON does it. -/
def Quotable (c : Char) : Prop :=
  (c.toNat < 0x20 → c.toNat ∈ [8, 9, 10, 12, 13]) ∧ c.toNat ≠ 0x7f ∧ (0x10000 ≤ c.toNat → isPrint c = true)

instance (c : Char) : Decidable (Quotable isPrint c) := inferInstanceAs (Decidable (_ ∧ _ ∧ _))

def QuotablePath (s : String) : Prop := ∀ c ∈ s.toList, Quotable isPrint c

instance (s : String) : Decidable (QuotablePath isPrint s) := inferInstanceAs (Decidable (∀ c ∈ s.toList, _))

end Quote

section Spelling
variable {isPrint : Char → Bool} {c : Char} {u : CodeUnit} {cs : List Char}

/-- The unit stands for the character, whatever comes after it. -/
def Means (u : CodeUnit) (c : Char) : Prop := ∀ us, decodeUnits (u :: us) = c :: decodeUnits us

theorem means_char (c : Char) : Means (.char c) c := fun _ => rfl

theorem means_code (h : c.toNat < 0x10000) : Means (.code c.toNat) c := by
  have hvalid : c.toNat < 0xd800 ∨ 0xdfff < c.toNat ∧ c.toNat < 0x110000 := c.valid
  have hhigh : JsonText.isHigh c.toNat = false := by
    simp only [JsonText.isHigh, Bool.and_eq_false_iff, decide_eq_false_iff_not]
    omega
  have hlow : JsonText.isLow c.toNat = false := by
    simp only [JsonText.isLow, Bool.and_eq_false_iff, decide_eq_false_iff_not]
    omega
  have hcode : JsonText.ofCode c.toNat = c := by simp [JsonText.ofCode, hhigh, hlow, Char.ofNat_toNat]
  intro us
  rcases us with _ | ⟨_ | _, us⟩ <;> simp [decodeUnits, hhigh, hcode]

theorem hexVal_hexDigit : ∀ d < 16, JsonText.hexVal (hexDigit d) = some d := by decide

theorem spells_raw (hq : c ≠ '"') (hb : c ≠ '\\') (h : 0x20 ≤ c.toNat) : Spells [c] [.char c] := by
  intro acc ts
  have hlow : ¬ c.toNat < 32 := by omega
  simp [JsonText.step, hq, hb, hlow]

theorem spells_escape {e : Char} (he : JsonText.unescape e = some c) (hu : e ≠ 'u') : Spells ['\\', e] [.char c] := by
  intro acc ts
  simp [JsonText.step, he, hu]

theorem spells_code (h : c.toNat < 0x10000) : Spells ('\\' :: 'u' :: hexDigits 4 c.toNat) [.code c.toNat] := by
  intro acc ts
  have hdigit := fun d : Nat => hexVal_hexDigit (d % 16) (Nat.mod_lt _ (by decide))
  have hvalue : (((0 * 16 + c.toNat / 16 / 16 / 16 % 16) * 16 + c.toNat / 16 / 16 % 16) * 16 + c.toNat / 16 % 16) * 16 +
      c.toNat % 16 = c.toNat := by omega
  have hrun : ('\\' :: 'u' :: hexDigits 4 c.toNat).foldlM JsonText.step ⟨.str acc, ts⟩ =
      some ⟨.str (.code ((((0 * 16 + c.toNat / 16 / 16 / 16 % 16) * 16 + c.toNat / 16 / 16 % 16) * 16 +
        c.toNat / 16 % 16) * 16 + c.toNat % 16) :: acc), ts⟩ := by
    simp [hexDigits, JsonText.step, hdigit]
  rw [hrun, hvalue]
  rfl

theorem controlEscape_spec {n : Nat} {e : Char} (h : controlEscape n = some e) :
    e ≠ 'u' ∧ ((n ∈ [8, 9, 10, 12, 13] ∧ JsonText.unescape e = some (Char.ofNat n)) ∨
      (n ∈ [7, 11] ∧ JsonText.unescape e = none)) := by
  unfold controlEscape at h
  split at h
  case h_8 => cases h
  all_goals
    obtain rfl := Option.some.inj h
    decide

/-- A character that can be quoted is read back. -/
theorem spells_rune (hp : PrintsAscii isPrint) (h : Quotable isPrint c) :
    ∃ u, Means u c ∧ Spells (appendEscapedRune isPrint c) [u] := by
  obtain ⟨hctl, hdel, hsup⟩ := h
  unfold appendEscapedRune
  split
  · next hq =>
    refine ⟨.char c, means_char c, ?_⟩
    rcases hq with rfl | rfl <;> exact spells_escape rfl (by decide)
  · next hq =>
    obtain ⟨hquote, hback⟩ := not_or.1 hq
    split
    · next hprint =>
      refine ⟨.char c, means_char c, spells_raw hquote hback ?_⟩
      by_contra hlow
      have := (hp c (by omega)).1 hprint
      omega
    · next hprint =>
      split
      · next e he =>
        refine ⟨.char c, means_char c, ?_⟩
        rcases controlEscape_spec he with ⟨hu, ⟨-, hback⟩ | ⟨hn, -⟩⟩
        · rw [Char.ofNat_toNat] at hback
          exact spells_escape hback hu
        · simp only [List.mem_cons, List.not_mem_nil, or_false] at hn hctl
          omega
      · next he =>
        have hlow : ¬ c.toNat < 0x20 := by
          intro hlow
          have hmem := hctl hlow
          simp only [List.mem_cons, List.not_mem_nil, or_false] at hmem
          rcases hmem with hn | hn | hn | hn | hn <;> rw [hn] at he <;> cases he
        have hbmp : c.toNat < 0x10000 := by
          by_contra hbig
          exact hprint (hsup (by omega))
        rw [if_neg (by omega), if_pos hbmp]
        exact ⟨.code c.toNat, means_code hbmp, spells_code hbmp⟩

/-- Any other character is written with an escape that JSON does not have. -/
theorem stuck_rune (hp : PrintsAscii isPrint) (h : ¬ Quotable isPrint c) (acc : List CodeUnit) (ts : List JsonText.Token) :
    (appendEscapedRune isPrint c).foldlM JsonText.step ⟨.str acc, ts⟩ = none := by
  have hstuck : ∀ (e : Char) (r : List Char), e ≠ 'u' → JsonText.unescape e = none →
      ('\\' :: e :: r).foldlM JsonText.step ⟨.str acc, ts⟩ = none := by
    intro e r hu he
    simp [JsonText.step, hu, he]
  have hcases : (c.toNat < 0x20 ∧ c.toNat ∉ [8, 9, 10, 12, 13]) ∨ c.toNat = 0x7f ∨
      (0x10000 ≤ c.toNat ∧ isPrint c = false) := by
    unfold Quotable at h
    by_contra hno
    push Not at hno
    refine h ⟨hno.1, hno.2.1, fun hbig => ?_⟩
    simpa using hno.2.2 hbig
  have hprint : isPrint c = false := by
    rcases hcases with ⟨hlow, -⟩ | hdel | ⟨-, hprint⟩
    · by_contra hprint
      have := (hp c (by omega)).1 (by simpa using hprint)
      omega
    · by_contra hprint
      have := (hp c (by omega)).1 (by simpa using hprint)
      omega
    · exact hprint
  have hq : ¬ (c = '"' ∨ c = '\\') := by
    have hsmall : '"'.toNat = 34 ∧ '\\'.toNat = 92 := by decide
    rintro (rfl | rfl) <;> omega
  unfold appendEscapedRune
  rw [if_neg hq, if_neg (by rw [hprint]; decide)]
  split
  · next e he =>
    rcases controlEscape_spec he with ⟨hu, ⟨hn, -⟩ | ⟨-, hnone⟩⟩
    · simp only [List.mem_cons, List.not_mem_nil, or_false] at hn hcases
      omega
    · exact hstuck e [] hu hnone
  · split_ifs with hlow hbmp
    · exact hstuck _ _ (by decide) rfl
    · omega
    · exact hstuck _ _ (by decide) rfl

theorem spells_runes (hp : PrintsAscii isPrint) (h : ∀ c ∈ cs, Quotable isPrint c) :
    ∃ us, decodeUnits us = cs ∧ Spells (cs.flatMap (appendEscapedRune isPrint)) us := by
  induction cs with
  | nil => exact ⟨[], rfl, .nil⟩
  | cons c cs ih =>
    obtain ⟨u, hu, hc⟩ := spells_rune hp (h c (List.mem_cons_self ..))
    obtain ⟨us, hus, hcs⟩ := ih fun d hd => h d (List.mem_cons_of_mem _ hd)
    refine ⟨u :: us, by rw [hu, hus], ?_⟩
    rw [List.flatMap_cons]
    exact hc.append hcs

theorem stuck_runes (hp : PrintsAscii isPrint) (h : ∃ c ∈ cs, ¬ Quotable isPrint c) (acc : List CodeUnit)
    (ts : List JsonText.Token) : (cs.flatMap (appendEscapedRune isPrint)).foldlM JsonText.step ⟨.str acc, ts⟩ = none := by
  induction cs generalizing acc with
  | nil => obtain ⟨_, hmem, _⟩ := h; cases hmem
  | cons c cs ih =>
    rw [List.flatMap_cons, List.foldlM_append]
    by_cases hc : Quotable isPrint c
    · obtain ⟨u, -, hu⟩ := spells_rune hp hc
      rw [hu, Option.bind_eq_bind, Option.bind_some]
      refine ih ?_ _
      obtain ⟨d, hd, hbad⟩ := h
      rcases List.mem_cons.1 hd with rfl | hd
      · exact absurd hc hbad
      · exact ⟨d, hd, hbad⟩
    · rw [stuck_rune hp hc]
      rfl

theorem spells_plain (h : ∀ c ∈ cs, isSpecial c = false) :
    Spells cs (cs.map .char) ∧ decodeUnits (cs.map .char) = cs := by
  induction cs with
  | nil => exact ⟨.nil, rfl⟩
  | cons c cs ih =>
    obtain ⟨hs, hd⟩ := ih fun d hd => h d (List.mem_cons_of_mem _ hd)
    have hc := h c (List.mem_cons_self ..)
    simp only [isSpecial, Bool.or_eq_false_iff, decide_eq_false_iff_not] at hc
    obtain ⟨⟨⟨hq, hb⟩, hlow⟩, -⟩ := hc
    refine ⟨(spells_raw hq hb (by omega)).append hs, ?_⟩
    rw [List.map_cons, means_char, hd]

theorem quotable_of_plain (h : isSpecial c = false) : Quotable isPrint c := by
  simp only [isSpecial, Bool.or_eq_false_iff, decide_eq_false_iff_not] at h
  exact ⟨fun hlow => absurd hlow h.1.2, by omega, by omega⟩

variable {s : String}

theorem lexes_quote (hp : PrintsAscii isPrint) (h : QuotablePath isPrint s) : Lexes (appendFastQuote isPrint s) [.str s] := by
  unfold appendFastQuote
  split
  · obtain ⟨us, hus, hs⟩ := spells_runes hp h
    have hstring := JsonText.lexes_string hs
    rwa [hus, String.ofList_toList] at hstring
  · next hplain =>
    obtain ⟨hs, hd⟩ := @spells_plain s.toList fun c hc => by
      by_contra hspecial
      exact hplain (List.any_eq_true.2 ⟨c, hc, by simpa using hspecial⟩)
    have hstring := JsonText.lexes_string hs
    rwa [hd, String.ofList_toList] at hstring

theorem stuck_quote (hp : PrintsAscii isPrint) (h : ¬ QuotablePath isPrint s) : Stuck (appendFastQuote isPrint s) := by
  obtain ⟨c, hc, hbad⟩ : ∃ c ∈ s.toList, ¬ Quotable isPrint c := by
    unfold QuotablePath at h
    push Not at h
    exact h
  have hspecial : s.toList.any isSpecial = true := by
    refine List.any_eq_true.2 ⟨c, hc, ?_⟩
    by_contra hplain
    exact hbad (quotable_of_plain (by simpa using hplain))
  rw [appendFastQuote, if_pos hspecial]
  refine JsonText.stuck_string fun ts => ?_
  rw [List.foldlM_append, stuck_runes hp ⟨c, hc, hbad⟩]
  rfl

end Spelling

/-! ### Writing -/

/-- An entry of one of the two lists; `first` says whether a comma is due. -/
def writeEntry (acc : Bool × List Char) (entry : List Char) : Bool × List Char :=
  (false, acc.2 ++ (if acc.1 then [] else [',']) ++ entry)

def fileEntry (isPrint : Char → Bool) (k : String) (v : FileInfo) : List Char :=
  appendFastQuote isPrint k ++ [':'] ++ ("\x7b\"size\":".toList ++ formatInt v.size ++ ",\"mod_time\":".toList ++
    formatInt v.modTime ++ ['}'])

namespace FileIndex

/-- The files and the directories in the orders in which `Range` visits them. -/
def writeJSONTo (isPrint : Char → Bool) (idx : FileIndex) (files : List (String × FileInfo)) (dirs : List String) :
    List Char :=
  let written := files.foldl (fun acc e => if idx.isBlocked e.1 then acc else writeEntry acc (fileEntry isPrint e.1 e.2))
    (true, "\x7b\"files\":\x7b".toList)
  let written := dirs.foldl (fun acc k => writeEntry acc (appendFastQuote isPrint k))
    (true, written.2 ++ "\x7d,\"dirs\":[".toList)
  written.2 ++ "]\x7d".toList

end FileIndex

theorem writeEntry_loop (es : List (List Char)) (first : Bool) (buf : List Char) :
    (es.foldl writeEntry (first, buf)).2 = buf ++ if first then joined es else commas es := by
  induction es generalizing first buf with
  | nil => cases first <;> simp [joined, commas]
  | cons e es ih =>
    rw [List.foldl_cons, writeEntry, ih]
    cases first <;> simp [joined, commas]

/-- The values of a file in the document. -/
def infoJson (v : FileInfo) : Json :=
  .obj [("size", .num (String.ofList (formatInt v.size))), ("mod_time", .num (String.ofList (formatInt v.modTime)))]

section Text
variable {isPrint : Char → Bool} {idx : FileIndex} {files : List (String × FileInfo)} {dirs : List String}

/-- The files that are not blocked. -/
def served (idx : FileIndex) (files : List (String × FileInfo)) : List (String × FileInfo) :=
  files.filter fun e => !idx.isBlocked e.1

def document (idx : FileIndex) (files : List (String × FileInfo)) (dirs : List String) : Json :=
  .obj [("files", .obj ((served idx files).map fun e => (e.1, infoJson e.2))), ("dirs", .arr (dirs.map .str))]

theorem text_eq : idx.writeJSONTo isPrint files dirs =
    "\x7b\"files\":".toList ++ ('{' :: (joined ((served idx files).map fun e => fileEntry isPrint e.1 e.2) ++ ['}'])) ++
      (",\"dirs\":".toList ++ ('[' :: (joined (dirs.map (appendFastQuote isPrint)) ++ [']'])) ++ ['}']) := by
  have hfiles : ∀ acc, files.foldl (fun acc e => if idx.isBlocked e.1 then acc else writeEntry acc
    (fileEntry isPrint e.1 e.2)) acc = ((served idx files).map fun e => fileEntry isPrint e.1 e.2).foldl writeEntry acc := by
    intro acc
    rw [served, List.foldl_map, List.foldl_filter]
    congr 1
    funext acc e
    cases idx.isBlocked e.1 <;> rfl
  have hdirs : ∀ acc, dirs.foldl (fun acc k => writeEntry acc (appendFastQuote isPrint k)) acc =
      (dirs.map (appendFastQuote isPrint)).foldl writeEntry acc := fun acc => List.foldl_map.symm
  unfold FileIndex.writeJSONTo
  dsimp only
  rw [hfiles, hdirs, writeEntry_loop, writeEntry_loop, if_pos rfl, if_pos rfl]
  simp

theorem lexes_fileEntry (hp : PrintsAscii isPrint) {k : String} (h : QuotablePath isPrint k) (v : FileInfo) :
    Lexes (fileEntry isPrint k v) (.str k :: .colon :: JsonText.tokens (infoJson v)) := by
  have hopen : Lexes "\x7b\"size\":".toList [.lbrace, .str "size", .colon] := fun _ => rfl
  have hmiddle : Lexes "\"mod_time\":".toList [.str "mod_time", .colon] := fun _ => rfl
  have hcolon : Lexes [':'] [.colon] := JsonText.lexes_punctuation rfl
  have hsize := JsonText.lexes_int v.size (c := ',') rfl
  have htime := JsonText.lexes_int v.modTime (c := '}') rfl
  have hall := ((lexes_quote hp h).append hcolon).append (hopen.append (hsize.append (hmiddle.append htime)))
  have htext : appendFastQuote isPrint k ++ [':'] ++ ("\x7b\"size\":".toList ++ (formatInt v.size ++ [','] ++
      ("\"mod_time\":".toList ++ (formatInt v.modTime ++ ['}'])))) = fileEntry isPrint k v := by
    simp [fileEntry]
  rw [htext] at hall
  exact hall

theorem stuck_fileEntry (hp : PrintsAscii isPrint) {k : String} (h : ¬ QuotablePath isPrint k) (v : FileInfo) :
    Stuck (fileEntry isPrint k v) := ((stuck_quote hp h).append _).append _

theorem lexes_text (hp : PrintsAscii isPrint) (hfiles : ∀ e ∈ served idx files, QuotablePath isPrint e.1)
    (hdirs : ∀ k ∈ dirs, QuotablePath isPrint k) :
    Lexes (idx.writeJSONTo isPrint files dirs) (JsonText.tokens (document idx files dirs)) := by
  have hopen : Lexes "\x7b\"files\":".toList [.lbrace, .str "files", .colon] := fun _ => rfl
  have hmiddle : Lexes ",\"dirs\":".toList [.comma, .str "dirs", .colon] := fun _ => rfl
  have hclose : Lexes ['}'] [.rbrace] := JsonText.lexes_punctuation rfl
  have hobject := @JsonText.lexes_object ((served idx files).map fun e => fileEntry isPrint e.1 e.2)
    ((served idx files).map fun e => (e.1, infoJson e.2)) (by
      rw [List.forall₂_map_left_iff, List.forall₂_map_right_iff, List.forall₂_same]
      exact fun e he => lexes_fileEntry hp (hfiles e he) e.2)
  have harray := @JsonText.lexes_array (dirs.map (appendFastQuote isPrint)) (dirs.map .str) (by
      rw [List.forall₂_map_left_iff, List.forall₂_map_right_iff, List.forall₂_same]
      intro k hk
      simpa [JsonText.tokens] using lexes_quote hp (hdirs k hk))
  have hall := (hopen.append hobject).append ((hmiddle.append harray).append hclose)
  rw [← text_eq] at hall
  simpa [document, JsonText.tokens, JsonText.memberTokens] using hall

/-- Where one of them cannot, the text is none. -/
theorem stuck_text (hp : PrintsAscii isPrint)
    (h : (∃ e ∈ served idx files, ¬ QuotablePath isPrint e.1) ∨ ∃ k ∈ dirs, ¬ QuotablePath isPrint k) :
    Stuck (idx.writeJSONTo isPrint files dirs) := by
  have hopen : Lexes "\x7b\"files\":\x7b".toList [.lbrace, .str "files", .colon, .lbrace] := fun _ => rfl
  have hmiddle : Lexes "\x7d,\"dirs\":[".toList [.rbrace, .comma, .str "dirs", .colon, .lbracket] := fun _ => rfl
  have hfile : ∀ e ∈ (served idx files).map fun e => fileEntry isPrint e.1 e.2, (∃ ts, Lexes e ts) ∨ Stuck e := by
    intro e he
    obtain ⟨x, -, rfl⟩ := List.mem_map.1 he
    by_cases hq : QuotablePath isPrint x.1
    · exact .inl ⟨_, lexes_fileEntry hp hq x.2⟩
    · exact .inr (stuck_fileEntry hp hq x.2)
  have hdir : ∀ e ∈ dirs.map (appendFastQuote isPrint), (∃ ts, Lexes e ts) ∨ Stuck e := by
    intro e he
    obtain ⟨x, -, rfl⟩ := List.mem_map.1 he
    by_cases hq : QuotablePath isPrint x
    · exact .inl ⟨_, lexes_quote hp hq⟩
    · exact .inr (stuck_quote hp hq)
  have htext : idx.writeJSONTo isPrint files dirs = "\x7b\"files\":\x7b".toList ++
      (joined ((served idx files).map fun e => fileEntry isPrint e.1 e.2) ++ ("\x7d,\"dirs\":[".toList ++
        (joined (dirs.map (appendFastQuote isPrint)) ++ "]\x7d".toList))) := by
    rw [text_eq]
    simp
  rw [htext]
  refine hopen.stuck ?_
  by_cases hbad : ∃ e ∈ served idx files, ¬ QuotablePath isPrint e.1
  · obtain ⟨e, he, hq⟩ := hbad
    exact (JsonText.stuck_joined hfile ⟨_, List.mem_map_of_mem he, stuck_fileEntry hp hq e.2⟩).append _
  · obtain ⟨k, hk, hq⟩ := h.resolve_left hbad
    have hgood : ∀ e ∈ served idx files, QuotablePath isPrint e.1 := by
      intro e he
      by_contra hq
      exact hbad ⟨e, he, hq⟩
    have hobject := @JsonText.lexes_joined ((served idx files).map fun e => fileEntry isPrint e.1 e.2) (by
      intro e he
      obtain ⟨x, hx, rfl⟩ := List.mem_map.1 he
      exact ⟨_, lexes_fileEntry hp (hgood x hx) x.2⟩)
    obtain ⟨ts, hobject⟩ := hobject
    refine hobject.stuck (hmiddle.stuck ?_)
    exact (JsonText.stuck_joined hdir ⟨_, List.mem_map_of_mem hk, stuck_quote hp hq⟩).append _

end Text

/-! ### Reading -/

/-- `fileIndexWire` -/
structure FileIndexWire where
  files : Option Json
  dirs : List String
  notFound : List (String × Int)

/-- The decoder; a map comes with the order in which it is ranged over. -/
structure GoJson where
  document : List Char → Option Json
  string : Json → Option String
  strings : Json → Option (List String)
  int64 : Json → Option Int
  fileInfo : Json → Option FileInfo
  fileMap : Json → Option (List (String × FileInfo))
  wire : Json → Option FileIndexWire

def IsInt64 (n : Int) : Prop := -2 ^ 63 ≤ n ∧ n < 2 ^ 63

/-- What the decoder documents, as far as it is relied on. -/
structure GoJson.Documented (d : GoJson) : Prop where
  document : ∀ text v, JsonText.parse text = some v → d.document text = some v
  string : ∀ s, d.string (.str s) = some s
  fileInfo : ∀ v, IsInt64 v.size → IsInt64 v.modTime → d.fileInfo (infoJson v) = some v
  fileMap : ∀ entries : List (String × FileInfo), GoMap.Keyed entries →
    (∀ e ∈ entries, d.fileInfo (infoJson e.2) = some e.2) →
    ∃ visited, d.fileMap (.obj (entries.map fun e => (e.1, infoJson e.2))) = some visited ∧ visited.Perm entries
  wire : ∀ files dirs, d.wire (.obj [("files", files), ("dirs", .arr (dirs.map .str))]) = some ⟨some files, dirs, []⟩

namespace FileIndex
section Read
variable (d : GoJson) (stat : String → Option FileInfo) (now : Int)

def readFilesFromJSON (idx : FileIndex) : Json → Option FileIndex
  | .obj members => members.foldlM (fun idx (filePath, v) => (d.fileInfo v).map fun info => insertFile idx filePath info) idx
  | .arr elems => elems.foldlM (fun idx v =>
      (d.string v).map fun filePath => insertFile idx filePath ((stat filePath).getD ⟨0, 0⟩)) idx
  | _ => none

def readDirsFromJSON (idx : FileIndex) : Json → Option FileIndex
  | .arr elems => elems.foldlM (fun idx v => (d.string v).map fun dir => insertDir idx dir) idx
  | _ => none

def readNotFoundFromJSON (idx : FileIndex) : Json → Option FileIndex
  | .obj members => members.foldlM (fun idx (filePath, v) =>
      (d.int64 v).map fun expireAt => insertNotFound idx filePath expireAt now) idx
  | _ => none

def readField (idx : FileIndex) (field : String × Json) : Option FileIndex :=
  if field.1 = "files" then readFilesFromJSON d stat idx field.2
  else if field.1 = "dirs" then readDirsFromJSON d idx field.2
  else if field.1 = "not_found" then readNotFoundFromJSON d now idx field.2
  else some idx

/-- An error is `none`; what has been read by then is of no use to the caller. -/
def readJSONFrom (idx : FileIndex) (text : List Char) : Option FileIndex :=
  match d.document text with
  | some (.obj fields) => fields.foldlM (readField d stat now) idx
  | _ => none

/-- A directory as `UnmarshalJSON` stores it. -/
def storeDir (idx : FileIndex) (dir : String) : FileIndex :=
  addChild { idx with dirs := idx.dirs.insert dir true, dirsCount := idx.dirsCount + 1 } dir

def storeNotFound (idx : FileIndex) (entry : String × Int) : FileIndex :=
  { idx with notFound := idx.notFound.insert entry.1 entry.2, notFoundCount := idx.notFoundCount + 1 }

def unmarshalJSON (idx : FileIndex) (data : List Char) : Option FileIndex :=
  ((d.document data).bind d.wire).bind fun raw =>
    let idx := raw.notFound.foldl storeNotFound (raw.dirs.foldl storeDir idx)
    match raw.files with
    | some (.arr elems) =>
      (d.strings (.arr elems)).map fun fileList =>
        fileList.foldl (fun idx file => putFile idx file ((stat file).getD ⟨0, 0⟩)) idx
    | some (.obj members) =>
      (d.fileMap (.obj members)).map fun fileMap => fileMap.foldl (fun idx e => putFile idx e.1 e.2) idx
    | _ => some idx

end Read
end FileIndex

/-! ### What is read into a fresh index -/

open FileIndex

section Fresh
variable {idx idx' : FileIndex} {x : String} {info : FileInfo} {es : List (String × FileInfo)}

/-- `idx'` is `idx` with the file `x`. -/
structure Filed (idx : FileIndex) (x : String) (info : FileInfo) (idx' : FileIndex) : Prop where
  file : idx'.files.lookup x = some info
  files : ∀ y, y ≠ x → idx'.files.lookup y = idx.files.lookup y
  dirs : idx'.dirs = idx.dirs
  blocked : idx'.blocked = idx.blocked

theorem filed_putFile (hblocked : idx.blocked = ∅) (hdir : x ∉ idx.dirs) (info : FileInfo) :
    Filed idx x info (idx.putFile x info) := by
  have hb : idx.isBlocked x = false := by simp [FileIndex.isBlocked, hblocked]
  rw [FileIndex.putFile, hb, if_neg (by decide), if_neg hdir]
  have h := stored_storeFile idx x info
  exact ⟨h.file, h.files, h.dirs, h.blocked⟩

theorem filed_insertFile (hblocked : idx.blocked = ∅) (hdir : x ∉ idx.dirs) (info : FileInfo) :
    Filed idx x info (idx.insertFile x info) := by
  have hb : idx.isBlocked x = false := by simp [FileIndex.isBlocked, hblocked]
  have h := filed_putFile hblocked hdir info
  obtain ⟨hf, hd, hbl, -⟩ := clearNotFound_frame (idx.putFile x info) x
  rw [FileIndex.insertFile, hb, if_neg (by decide)]
  refine ⟨?_, fun y hy => ?_, hd.trans h.dirs, hbl.trans h.blocked⟩
  · rw [hf, h.file]
  · rw [hf, h.files y hy]

theorem filed_loop {store : FileIndex → String → FileInfo → FileIndex}
    (hstore : ∀ idx x info, idx.blocked = ∅ → x ∉ idx.dirs → Filed idx x info (store idx x info))
    (hkeys : GoMap.Keyed es) (hblocked : idx.blocked = ∅) (hdirs : ∀ e ∈ es, e.1 ∉ idx.dirs) :
    let idx' := es.foldl (fun idx e => store idx e.1 e.2) idx
    (∀ e ∈ es, idx'.files.lookup e.1 = some e.2) ∧
      (∀ y, (∀ e ∈ es, e.1 ≠ y) → idx'.files.lookup y = idx.files.lookup y) ∧ idx'.dirs = idx.dirs ∧ idx'.blocked = ∅ := by
  induction es generalizing idx with
  | nil => exact ⟨fun e he => absurd he List.not_mem_nil, fun _ _ => rfl, rfl, hblocked⟩
  | cons e es ih =>
    have hfiled := hstore idx e.1 e.2 hblocked (hdirs e (List.mem_cons_self ..))
    obtain ⟨hnew, hkeys⟩ := List.nodup_cons.1 hkeys
    have hne : ∀ e' ∈ es, e'.1 ≠ e.1 := by
      intro e' he' heq
      exact hnew (List.mem_map.2 ⟨e', he', heq⟩)
    obtain ⟨hfiles, hothers, hd, hb⟩ := @ih (store idx e.1 e.2) hkeys (hfiled.blocked.trans hblocked) fun e' he' => by
      rw [hfiled.dirs]
      exact hdirs e' (List.mem_cons_of_mem _ he')
    refine ⟨fun e' he' => ?_, fun y hy => ?_, hd.trans hfiled.dirs, hb⟩
    · rcases List.mem_cons.1 he' with rfl | he'
      · exact (hothers _ hne).trans hfiled.file
      · exact hfiles e' he'
    · exact (hothers y fun e' he' => hy e' (List.mem_cons_of_mem _ he')).trans
        (hfiled.files y fun h => hy e (List.mem_cons_self ..) h.symm)

/-- Directories after the files: a path that is a file stays one. -/
theorem insertDir_loop (ds : List String) :
    let idx' := ds.foldl insertDir idx
    idx'.files = idx.files ∧ ∀ y, y ∈ idx'.dirs ↔ y ∈ idx.dirs ∨ y ∈ ds ∧ y ∉ idx.files := by
  induction ds generalizing idx with
  | nil => simp
  | cons k ds ih =>
    have hstep : (idx.insertDir k).files = idx.files ∧ ∀ y, y ∈ (idx.insertDir k).dirs ↔ y ∈ idx.dirs ∨ y = k ∧
        k ∉ idx.files := by
      by_cases hf : k ∈ idx.files
      · obtain ⟨h1, h2, -⟩ := clearNotFound_frame idx k
        rw [FileIndex.insertDir, FileIndex.putDir, if_pos hf, h1, h2]
        simp [hf]
      · by_cases hd : k ∈ idx.dirs
        · obtain ⟨h1, h2, -⟩ := clearNotFound_frame idx k
          rw [FileIndex.insertDir, FileIndex.putDir, if_neg hf, if_pos hd, h1, h2]
          refine ⟨rfl, fun y => ⟨.inl, ?_⟩⟩
          rintro (hy | ⟨rfl, -⟩)
          · exact hy
          · exact hd
        · obtain ⟨h1, h2, -⟩ := insertDir_spec hf hd
          rw [h1, h2]
          refine ⟨rfl, fun y => ?_⟩
          rw [AList.mem_insert, or_comm]
          simp [hf]
    obtain ⟨h1, h2⟩ := @ih (idx.insertDir k)
    rw [List.foldl_cons]
    refine ⟨h1.trans hstep.1, fun y => ?_⟩
    rw [h2, hstep.1, hstep.2, List.mem_cons]
    constructor
    · rintro ((hy | ⟨rfl, hy⟩) | ⟨hy, hn⟩)
      · exact .inl hy
      · exact .inr ⟨.inl rfl, hy⟩
      · exact .inr ⟨.inr hy, hn⟩
    · rintro (hy | ⟨rfl | hy, hn⟩)
      · exact .inl (.inl hy)
      · exact .inl (.inr ⟨rfl, hn⟩)
      · exact .inr ⟨hy, hn⟩

theorem storeDir_loop (ds : List String) :
    let idx' := ds.foldl storeDir idx
    idx'.files = idx.files ∧ idx'.blocked = idx.blocked ∧ ∀ y, y ∈ idx'.dirs ↔ y ∈ idx.dirs ∨ y ∈ ds := by
  induction ds generalizing idx with
  | nil => simp
  | cons k ds ih =>
    obtain ⟨h1, h2, h3, -⟩ := addChild_frame { idx with dirs := idx.dirs.insert k true, dirsCount := idx.dirsCount + 1 } k
    obtain ⟨hf, hb, hd⟩ := @ih (idx.storeDir k)
    rw [List.foldl_cons]
    refine ⟨hf.trans h1, hb.trans h3, fun y => ?_⟩
    rw [hd, FileIndex.storeDir, h2, AList.mem_insert, List.mem_cons]
    constructor
    · rintro ((rfl | hy) | hy)
      · exact .inr (.inl rfl)
      · exact .inl hy
      · exact .inr (.inr hy)
    · rintro (hy | rfl | hy)
      · exact .inl (.inr hy)
      · exact .inl (.inl rfl)
      · exact .inr hy

end Fresh

/-! ### The round trip -/

/-- The orders of the two `Range` loops. -/
def Ranged (idx : FileIndex) (files : List (String × FileInfo)) (dirs : List String) : Prop :=
  files.Perm (idx.files.entries.map fun e => (e.1, e.2)) ∧ dirs.Perm idx.dirs.keys

/-- Exactly the files that are not blocked, and the same directories. -/
def Restored (idx : FileIndex) (read : Option FileIndex) : Prop :=
  ∃ idx', read = some idx' ∧ (∀ k, idx'.files.lookup k = idx.getFileInfo k) ∧ ∀ k, k ∈ idx'.dirs ↔
    k ∈ idx.dirs

/-- In whatever order it is written, the text is a JSON document, and both readers restore the index from it. -/
def RoundTrips (isPrint : Char → Bool) (d : GoJson) (stat : String → Option FileInfo) (now : Int) (idx : FileIndex) :
    Prop :=
  ∀ files dirs, Ranged idx files dirs →
    JsonText.Valid (idx.writeJSONTo isPrint files dirs) ∧
      Restored idx (newFileIndex.readJSONFrom d stat now (idx.writeJSONTo isPrint files dirs)) ∧
      Restored idx (newFileIndex.unmarshalJSON d stat (idx.writeJSONTo isPrint files dirs))

/-- The fields of a `FileInfo` are of type `int64`. -/
def Typed (idx : FileIndex) : Prop := ∀ k v, idx.files.lookup k = some v → IsInt64 v.size ∧ IsInt64 v.modTime

structure Exportable (isPrint : Char → Bool) (idx : FileIndex) : Prop where
  files : ∀ k, idx.hasFile k = true → QuotablePath isPrint k
  dirs : ∀ k ∈ idx.dirs, QuotablePath isPrint k
  apart : ∀ k ∈ idx.dirs, idx.hasFile k = false

section RoundTrip
variable {isPrint : Char → Bool} {d : GoJson} {stat : String → Option FileInfo} {now : Int} {idx : FileIndex}
  {files : List (String × FileInfo)} {dirs : List String}

theorem foldlM_some {α β : Type} {f : β → α → Option β} {g : β → α → β} {l : List α}
    (h : ∀ b, ∀ a ∈ l, f b a = some (g b a)) (b : β) : l.foldlM f b = some (l.foldl g b) := by
  induction l generalizing b with
  | nil => rfl
  | cons a l ih =>
    rw [List.foldlM_cons, h b a (List.mem_cons_self ..), Option.bind_eq_bind, Option.bind_some,
      ih fun b a ha => h b a (List.mem_cons_of_mem _ ha), List.foldl_cons]

theorem ranged_entries (idx : FileIndex) : Ranged idx (idx.files.entries.map fun e => (e.1, e.2)) idx.dirs.keys :=
    ⟨.refl _, .refl _⟩

theorem Ranged.keyed (h : Ranged idx files dirs) : GoMap.Keyed files := by
  refine GoMap.Keyed.perm ?_ h.1
  have hkeys : (idx.files.entries.map fun e => ((e.1, e.2) : String × FileInfo)).map Prod.fst = idx.files.keys := by
    rw [List.map_map]
    rfl
  rw [GoMap.Keyed, hkeys]
  exact idx.files.keys_nodup

theorem Ranged.mem_served (h : Ranged idx files dirs) (k : String) (v : FileInfo) :
    (k, v) ∈ served idx files ↔ idx.getFileInfo k = some v := by
  have hmem : (k, v) ∈ files ↔ idx.files.lookup k = some v := by
    rw [h.1.mem_iff, List.mem_map]
    constructor
    · rintro ⟨⟨k', v'⟩, he, heq⟩
      cases heq
      exact AList.mem_lookup_iff.2 he
    · intro hl
      exact ⟨⟨k, v⟩, AList.mem_lookup_iff.1 hl, rfl⟩
  rw [served, List.mem_filter, hmem, FileIndex.getFileInfo]
  cases idx.isBlocked k <;> simp

theorem Ranged.mem_dirs (h : Ranged idx files dirs) (k : String) : k ∈ dirs ↔ k ∈ idx.dirs := by
  rw [h.2.mem_iff]
  exact AList.mem_keys.symm

theorem hasFile_iff {k : String} : idx.hasFile k = true ↔ ∃ v, idx.getFileInfo k = some v := by
  rw [FileIndex.hasFile, FileIndex.getFileInfo]
  cases idx.isBlocked k
  · simp [← AList.lookup_isSome, Option.isSome_iff_exists]
  · simp

theorem RoundTrips.quotable (hp : PrintsAscii isPrint) (h : RoundTrips isPrint d stat now idx) :
    (∀ k, idx.hasFile k = true → QuotablePath isPrint k) ∧ ∀ k ∈ idx.dirs, QuotablePath isPrint k := by
  have hranged := ranged_entries idx
  have hvalid := (h _ _ hranged).1
  have hnot : ¬ Stuck (idx.writeJSONTo isPrint (idx.files.entries.map fun e => (e.1, e.2)) idx.dirs.keys) := by
    intro hstuck
    rw [JsonText.Valid, JsonText.parse, hstuck.lex] at hvalid
    cases hvalid
  refine ⟨fun k hk => ?_, fun k hk => ?_⟩ <;> by_contra hq
  · obtain ⟨v, hv⟩ := hasFile_iff.1 hk
    exact hnot (stuck_text hp (.inl ⟨(k, v), (hranged.mem_served k v).2 hv, hq⟩))
  · exact hnot (stuck_text hp (.inr ⟨k, (hranged.mem_dirs k).2 hk, hq⟩))

theorem parse_text (hp : PrintsAscii isPrint) (hfiles : ∀ k, idx.hasFile k = true → QuotablePath isPrint k)
    (hdirs : ∀ k ∈ idx.dirs, QuotablePath isPrint k) (h : Ranged idx files dirs) :
    JsonText.parse (idx.writeJSONTo isPrint files dirs) = some (document idx files dirs) := by
  refine JsonText.parse_eq_some.2 (lexes_text hp (fun e he => hfiles e.1 ?_) fun k hk => hdirs k ((h.mem_dirs k).1 hk)).lex
  exact hasFile_iff.2 ⟨e.2, (h.mem_served e.1 e.2).1 he⟩

theorem decodes_served (hd : d.Documented) (htyped : Typed idx) (h : Ranged idx files dirs) :
    ∀ e ∈ served idx files, d.fileInfo (infoJson e.2) = some e.2 := by
  intro e he
  have hv := (h.mem_served e.1 e.2).1 he
  unfold FileIndex.getFileInfo at hv
  split at hv
  · cases hv
  · obtain ⟨hs, ht⟩ := htyped _ _ hv
    exact hd.fileInfo e.2 hs ht

theorem readJSONFrom_text (hd : d.Documented) (htyped : Typed idx) (h : Ranged idx files dirs) {text : List Char}
    (htext : JsonText.parse text = some (document idx files dirs)) :
    newFileIndex.readJSONFrom d stat now text =
      some (dirs.foldl insertDir ((served idx files).foldl (fun idx e => insertFile idx e.1 e.2) newFileIndex)) := by
  have hfiles : readFilesFromJSON d stat newFileIndex (.obj ((served idx files).map fun e => (e.1, infoJson e.2))) =
      some ((served idx files).foldl (fun idx e => insertFile idx e.1 e.2) newFileIndex) := by
    rw [readFilesFromJSON, List.foldlM_map]
    refine foldlM_some (fun b e he => ?_) _
    show (d.fileInfo (infoJson e.2)).map _ = _
    rw [decodes_served hd htyped h e he]
    rfl
  have hdirs : ∀ idx : FileIndex, readDirsFromJSON d idx (.arr (dirs.map .str)) = some (dirs.foldl insertDir idx) := by
    intro idx
    rw [readDirsFromJSON, List.foldlM_map]
    refine foldlM_some (fun b k _ => ?_) _
    rw [hd.string]
    rfl
  rw [FileIndex.readJSONFrom, hd.document _ _ htext]
  show [("files", _), ("dirs", _)].foldlM (readField d stat now) newFileIndex = _
  simp only [List.foldlM_cons, List.foldlM_nil, readField, if_true, hfiles, Option.bind_eq_bind, Option.bind_some]
  rw [if_neg (by decide), hdirs]
  rfl

theorem unmarshalJSON_text (hd : d.Documented) (htyped : Typed idx) (h : Ranged idx files dirs) {text : List Char}
    (htext : JsonText.parse text = some (document idx files dirs)) :
    ∃ visited : List (String × FileInfo), visited.Perm (served idx files) ∧ newFileIndex.unmarshalJSON d stat text =
      some (visited.foldl (fun idx e => putFile idx e.1 e.2) (dirs.foldl storeDir newFileIndex)) := by
  have hkeyed : GoMap.Keyed (served idx files) := h.keyed.sublist List.filter_sublist
  obtain ⟨visited, hmap, hperm⟩ := hd.fileMap (served idx files) hkeyed (decodes_served hd htyped h)
  refine ⟨visited, hperm, ?_⟩
  rw [FileIndex.unmarshalJSON, hd.document _ _ htext, Option.bind_some, document, hd.wire, Option.bind_some]
  dsimp only
  rw [hmap]
  rfl

theorem loaded_files (h : Ranged idx files dirs) {visited : List (String × FileInfo)}
    (hperm : visited.Perm (served idx files)) {m : PathMap FileInfo} (hin : ∀ e ∈ visited, m.lookup e.1 = some e.2)
    (hout : ∀ y, (∀ e ∈ visited, e.1 ≠ y) → m.lookup y = none) (k : String) : m.lookup k = idx.getFileInfo k := by
  have hmem : ∀ v, (k, v) ∈ visited ↔ idx.getFileInfo k = some v := fun v => hperm.mem_iff.trans (h.mem_served k v)
  cases hk : idx.getFileInfo k with
  | some v => exact hin (k, v) ((hmem v).2 hk)
  | none =>
    refine hout k fun e he heq => ?_
    have hv := (hmem e.2).1 (heq ▸ he)
    rw [hk] at hv
    cases hv

theorem loaded_insert (h : Ranged idx files dirs) (k : String) :
    ((served idx files).foldl (fun idx e => insertFile idx e.1 e.2) newFileIndex).files.lookup k = idx.getFileInfo k := by
  have hkeyed : GoMap.Keyed (served idx files) := h.keyed.sublist List.filter_sublist
  obtain ⟨hin, hout, -⟩ := @filed_loop newFileIndex (served idx files) insertFile
    (fun _ _ info hb hx => filed_insertFile hb hx info) hkeyed rfl fun e _ => AList.notMem_empty _
  exact loaded_files h (.refl _) hin hout k

theorem dirs_insert (h : Ranged idx files dirs) (k : String) :
    k ∈ (dirs.foldl insertDir ((served idx files).foldl (fun idx e => insertFile idx e.1 e.2) newFileIndex)).dirs ↔
      k ∈ idx.dirs ∧ idx.hasFile k = false := by
  have hkeyed : GoMap.Keyed (served idx files) := h.keyed.sublist List.filter_sublist
  obtain ⟨-, -, hd, -⟩ := @filed_loop newFileIndex (served idx files) insertFile
    (fun _ _ info hb hx => filed_insertFile hb hx info) hkeyed rfl fun e _ => AList.notMem_empty _
  have hfile : k ∉ ((served idx files).foldl (fun idx e => insertFile idx e.1 e.2) newFileIndex).files ↔
      idx.hasFile k = false := by
    rw [← AList.lookup_isSome, loaded_insert h, ← Bool.not_eq_true, hasFile_iff, Option.isSome_iff_exists]
  rw [(insertDir_loop dirs).2, hd, h.mem_dirs, hfile]
  exact or_iff_right (AList.notMem_empty _)

theorem restored_readJSONFrom (hd : d.Documented) (htyped : Typed idx) (h : Ranged idx files dirs) {text : List Char}
    (htext : JsonText.parse text = some (document idx files dirs)) (hapart : ∀ k ∈ idx.dirs, idx.hasFile k = false) :
    Restored idx (newFileIndex.readJSONFrom d stat now text) := by
  refine ⟨_, readJSONFrom_text hd htyped h htext, fun k => ?_, fun k => ?_⟩
  · rw [(insertDir_loop dirs).1]
    exact loaded_insert h k
  · rw [dirs_insert h]
    exact and_iff_left_of_imp (hapart k)

theorem restored_unmarshalJSON (hd : d.Documented) (htyped : Typed idx) (h : Ranged idx files dirs) {text : List Char}
    (htext : JsonText.parse text = some (document idx files dirs)) (hapart : ∀ k ∈ idx.dirs, idx.hasFile k = false) :
    Restored idx (newFileIndex.unmarshalJSON d stat text) := by
  obtain ⟨visited, hperm, heq⟩ := @unmarshalJSON_text d stat idx files dirs hd htyped h text htext
  obtain ⟨hf, hb, hdirs⟩ := @storeDir_loop newFileIndex dirs
  have hkeyed : GoMap.Keyed visited := (h.keyed.sublist List.filter_sublist).perm hperm
  have hnotdir : ∀ e ∈ visited, e.1 ∉ (dirs.foldl storeDir newFileIndex).dirs := by
    intro e he hdir
    have hserved := (h.mem_served e.1 e.2).1 (hperm.mem_iff.1 he)
    rcases (hdirs e.1).1 hdir with hnone | hmem
    · exact AList.notMem_empty _ hnone
    · have hfalse := hapart e.1 ((h.mem_dirs e.1).1 hmem)
      rw [hasFile_iff.2 ⟨e.2, hserved⟩] at hfalse
      cases hfalse
  obtain ⟨hin, hout, hsame, -⟩ := @filed_loop (dirs.foldl storeDir newFileIndex) visited putFile
    (fun _ _ info hb hx => filed_putFile hb hx info) hkeyed hb hnotdir
  refine ⟨_, heq, fun k => ?_, fun k => ?_⟩
  · refine loaded_files h hperm hin (fun y hy => (hout y hy).trans ?_) k
    rw [hf]
    rfl
  · rw [hsame, hdirs, h.mem_dirs]
    exact or_iff_right (AList.notMem_empty _)

/-- The index round-trips exactly when no path has a character that JSON cannot read back and no path is a
file and a directory at once. -/
theorem roundTrips_iff (hp : PrintsAscii isPrint) (hd : d.Documented) (htyped : Typed idx) :
    RoundTrips isPrint d stat now idx ↔ Exportable isPrint idx := by
  constructor
  · intro h
    obtain ⟨hfiles, hdirs⟩ := h.quotable hp
    refine ⟨hfiles, hdirs, fun k hk => ?_⟩
    have hranged := ranged_entries idx
    obtain ⟨-, ⟨idx', heq, -, hrestored⟩, -⟩ := h _ _ hranged
    rw [readJSONFrom_text hd htyped hranged (parse_text hp hfiles hdirs hranged)] at heq
    obtain rfl := Option.some.inj heq
    exact ((dirs_insert hranged k).1 ((hrestored k).2 hk)).2
  · intro h files dirs hranged
    have htext := parse_text hp h.files h.dirs hranged
    refine ⟨?_, restored_readJSONFrom hd htyped hranged htext h.apart, restored_unmarshalJSON hd htyped hranged htext
      h.apart⟩
    rw [JsonText.Valid, htext]
    rfl

end RoundTrip

/-! ### A decoder -/

/-- A field of a `FileInfo`; any other field is passed over. -/
def infoField (v : FileInfo) : String × Json → Option FileInfo
  | ("size", .num literal) => some { v with size := JsonText.readInt literal.toList }
  | ("mod_time", .num literal) => some { v with modTime := JsonText.readInt literal.toList }
  | (name, _) => if name = "size" ∨ name = "mod_time" then none else some v

def decodeInfo : Json → Option FileInfo
  | .obj fields => fields.foldlM infoField ⟨0, 0⟩
  | _ => none

def decodeString : Json → Option String
  | .str s => some s
  | _ => none

def decodeInt : Json → Option Int
  | .num literal => some (JsonText.readInt literal.toList)
  | _ => none

def decodeStrings : Json → Option (List String)
  | .arr elems => elems.mapM decodeString
  | _ => none

/-- The members of an object, each with its value decoded. -/
def decodeMap {α : Type} (decode : Json → Option α) : Json → Option (List (String × α))
  | .obj members => members.mapM fun e => (decode e.2).map fun v => (e.1, v)
  | _ => none

def decodeWire : Json → Option FileIndexWire
  | .obj fields => do
    let dirs ← ((fields.lookup "dirs").map decodeStrings).getD (some [])
    let notFound ← ((fields.lookup "not_found").map (decodeMap decodeInt)).getD (some [])
    some ⟨fields.lookup "files", dirs, notFound⟩
  | _ => none

/-- A decoder that keeps to the documentation. -/
def plainDecoder : GoJson where
  document := JsonText.parse
  string := decodeString
  strings := decodeStrings
  int64 := decodeInt
  fileInfo := decodeInfo
  fileMap := decodeMap decodeInfo
  wire := decodeWire

theorem mapM_some {α β γ : Type} {f : β → Option γ} {g : α → β} {k : α → γ} {l : List α}
    (h : ∀ a ∈ l, f (g a) = some (k a)) :
    (l.map g).mapM f = some (l.map k) := by
  induction l with
  | nil => rfl
  | cons a l ih =>
    rw [List.map_cons, List.mapM_cons, h a (List.mem_cons_self ..), ih fun b hb => h b (List.mem_cons_of_mem _ hb)]
    rfl

theorem plainDecoder_documented : plainDecoder.Documented where
  document _ _ h := h
  string _ := rfl
  fileInfo v _ _ := by
    simp [plainDecoder, decodeInfo, infoJson, infoField, JsonText.readInt_formatInt]
  fileMap entries _ h := by
    refine ⟨entries, ?_, .refl _⟩
    have hall := @mapM_some (String × FileInfo) (String × Json) (String × FileInfo)
      (fun e => (decodeInfo e.2).map fun v => (e.1, v)) (fun e => (e.1, infoJson e.2)) id entries fun e he => by
        have hv : decodeInfo (infoJson e.2) = some e.2 := h e he
        simp [hv]
    rw [List.map_id] at hall
    exact hall
  wire files dirs := by
    have hall : decodeStrings (.arr (dirs.map .str)) = some dirs := by
      have hmap := @mapM_some String Json String decodeString .str id dirs fun _ _ => rfl
      rw [List.map_id] at hmap
      exact hmap
    simp [plainDecoder, decodeWire, List.lookup_cons, hall]

/-! ### A path that comes back, and one that does not -/

/-- `strconv.IsPrint` as far as the paths below go. -/
def printsBasic (c : Char) : Bool := 0x20 ≤ c.toNat && c.toNat ≤ 0x7e

theorem printsBasic_ascii : PrintsAscii printsBasic := by
  intro c _
  simp [printsBasic]

theorem lookup_single (x : String) (info : FileInfo) (k : String) (v : FileInfo) :
    (newFileIndex.insertFile x info).files.lookup k = some v ↔ k = x ∧ v = info := by
  have h := @filed_insertFile newFileIndex x rfl (AList.notMem_empty _) info
  by_cases hk : k = x
  · rw [hk, h.file]
    simp [eq_comm]
  · rw [h.files k hk]
    constructor
    · intro hnone
      cases hnone
    · rintro ⟨rfl, -⟩
      exact absurd rfl hk

theorem hasFile_single (x : String) (info : FileInfo) : (newFileIndex.insertFile x info).hasFile x = true := by
  have hblocked : (newFileIndex.insertFile x info).blocked = ∅ := (filed_insertFile rfl (AList.notMem_empty _) info).blocked
  refine hasFile_iff.2 ⟨info, ?_⟩
  rw [FileIndex.getFileInfo, if_neg (by simp [FileIndex.isBlocked, hblocked])]
  exact (lookup_single x info x info).2 ⟨rfl, rfl⟩

theorem typed_single {x : String} {info : FileInfo} (h : IsInt64 info.size ∧ IsInt64 info.modTime) :
    Typed (newFileIndex.insertFile x info) := by
  intro k v hv
  obtain ⟨-, rfl⟩ := (lookup_single x info k v).1 hv
  exact h

theorem exportable_single {isPrint : Char → Bool} {x : String} (h : QuotablePath isPrint x) (info : FileInfo) :
    Exportable isPrint (newFileIndex.insertFile x info) := by
  have hdirs : ∀ k, k ∉ (newFileIndex.insertFile x info).dirs := by
    intro k
    rw [(@filed_insertFile newFileIndex x rfl (AList.notMem_empty _) info).dirs]
    exact AList.notMem_empty k
  refine ⟨fun k hk => ?_, fun k hk => absurd hk (hdirs k), fun k hk => absurd hk (hdirs k)⟩
  obtain ⟨v, hv⟩ := hasFile_iff.1 hk
  unfold FileIndex.getFileInfo at hv
  split at hv
  · cases hv
  · obtain ⟨rfl, -⟩ := (lookup_single x info k v).1 hv
    exact h

/-- Quotes, a tabulator and a zero width space are read back. -/
theorem quoted_path_round_trips : PrintsAscii printsBasic ∧ plainDecoder.Documented ∧
    Typed (newFileIndex.insertFile "lib/\"a\tb\"\u200b.jar" ⟨42, -99⟩) ∧
    RoundTrips printsBasic plainDecoder (fun _ => none) 0
      (newFileIndex.insertFile "lib/\"a\tb\"\u200b.jar" ⟨42, -99⟩) := by
  have htyped : Typed (newFileIndex.insertFile "lib/\"a\tb\"\u200b.jar" ⟨42, -99⟩) :=
    typed_single ⟨⟨by decide, by decide⟩, by decide, by decide⟩
  refine ⟨printsBasic_ascii, plainDecoder_documented, htyped,
    (roundTrips_iff printsBasic_ascii plainDecoder_documented htyped).2 ?_⟩
  exact exportable_single (by simp [QuotablePath, Quotable, printsBasic]) _

/-- With a DEL in a path what is written is no JSON document. -/
theorem del_path_is_lost :
    ¬ RoundTrips printsBasic plainDecoder (fun _ => none) 0 (newFileIndex.insertFile "a\x7f.jar" ⟨3, 1⟩) := by
  intro h
  have hquotable : ¬ QuotablePath printsBasic "a\x7f.jar" := by simp [QuotablePath, Quotable, printsBasic]
  exact hquotable ((h.quotable printsBasic_ascii).1 _ (hasFile_single _ _))

end Renop.Index
