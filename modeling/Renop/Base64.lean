import Mathlib.Data.List.Basic

/-!
# Base64 without padding

`base64.RawURLEncoding`: groups of three bytes are groups of four digits, and the last group is one byte or two bytes shorter.
The decoder passes over line breaks and does not look at the unused bits of the last digit.
-/

namespace Renop.Base64

def alphabet : List Char := "ABCDEFGHIJKLMNOPQRSTUVWXYZabcdefghijklmnopqrstuvwxyz0123456789-_".toList

def toDigit (d : Nat) : Char := alphabet.getD d 'A'

def fromDigit (c : Char) : Option Nat := alphabet.idxOf? c

def digits : List UInt8 → List Nat
  | [] => []
  | [a] => [a.toNat / 4, a.toNat % 4 * 16]
  | [a, b] => [a.toNat / 4, a.toNat % 4 * 16 + b.toNat / 16, b.toNat % 16 * 4]
  | a :: b :: c :: rest =>
    a.toNat / 4 :: (a.toNat % 4 * 16 + b.toNat / 16) :: (b.toNat % 16 * 4 + c.toNat / 64) :: c.toNat % 64 :: digits rest

def bytes : List Nat → Option (List UInt8)
  | [] => some []
  | [_] => none
  | [s, t] => some [UInt8.ofNat (s * 4 + t / 16)]
  | [s, t, u] => some [UInt8.ofNat (s * 4 + t / 16), UInt8.ofNat (t % 16 * 16 + u / 4)]
  | s :: t :: u :: v :: rest =>
    (bytes rest).map fun tail =>
      UInt8.ofNat (s * 4 + t / 16) :: UInt8.ofNat (t % 16 * 16 + u / 4) :: UInt8.ofNat (u % 4 * 64 + v) :: tail

def encodeToString (src : List UInt8) : List Char := (digits src).map toDigit

def decodeString (s : List Char) : Option (List UInt8) :=
  ((s.filter fun c => c ≠ '\r' ∧ c ≠ '\n').mapM fromDigit).bind bytes

example : encodeToString [77, 97] = "TWE".toList := by decide

theorem digits_lt (src : List UInt8) : ∀ d ∈ digits src, d < 64 := by
  induction src using digits.induct with
  | case1 => simp [digits]
  | case2 a =>
    have ha := a.toNat_lt
    simp only [digits, List.mem_cons, List.not_mem_nil, or_false]
    omega
  | case3 a b =>
    have ha := a.toNat_lt
    have hb := b.toNat_lt
    simp only [digits, List.mem_cons, List.not_mem_nil, or_false]
    omega
  | case4 a b c rest ih =>
    have ha := a.toNat_lt
    have hb := b.toNat_lt
    have hc := c.toNat_lt
    intro d hd
    simp only [digits, List.mem_cons] at hd
    rcases hd with rfl | rfl | rfl | rfl | hd
    · omega
    · omega
    · omega
    · omega
    · exact ih d hd

theorem ofNat_eq {a : UInt8} {n : Nat} (h : n = a.toNat) : UInt8.ofNat n = a := by
  rw [h, UInt8.ofNat_toNat]

theorem bytes_digits (src : List UInt8) : bytes (digits src) = some src := by
  induction src using digits.induct with
  | case1 => rfl
  | case2 a => rw [digits, bytes, ofNat_eq (a := a) (by omega)]
  | case3 a b =>
    have hb := b.toNat_lt
    rw [digits, bytes, ofNat_eq (a := a) (by omega), ofNat_eq (a := b) (by omega)]
  | case4 a b c rest ih =>
    have hb := b.toNat_lt
    have hc := c.toNat_lt
    rw [digits, bytes, ih, Option.map_some, ofNat_eq (a := a) (by omega), ofNat_eq (a := b) (by omega),
      ofNat_eq (a := c) (by omega)]

theorem fromDigit_toDigit : ∀ d < 64, fromDigit (toDigit d) = some d := by decide

theorem toDigit_mem : ∀ d < 64, toDigit d ∈ alphabet := by decide

theorem encodeToString_mem {src : List UInt8} {c : Char} (h : c ∈ encodeToString src) : c ∈ alphabet := by
  obtain ⟨d, hd, rfl⟩ := List.mem_map.1 h
  exact toDigit_mem d (digits_lt src d hd)

theorem decode_encode (src : List UInt8) : decodeString (encodeToString src) = some src := by
  have hbreaks : '\r' ∉ alphabet ∧ '\n' ∉ alphabet := by decide
  have hfilter : ((encodeToString src).filter fun c => c ≠ '\r' ∧ c ≠ '\n') = encodeToString src := by
    refine List.filter_eq_self.2 fun c hc => ?_
    have hmem := encodeToString_mem hc
    have hr : c ≠ '\r' := fun h => hbreaks.1 (h ▸ hmem)
    have hn : c ≠ '\n' := fun h => hbreaks.2 (h ▸ hmem)
    simp [hr, hn]
  have hmap : ∀ {l : List Nat}, (∀ d ∈ l, d < 64) → (l.map toDigit).mapM fromDigit = some l := by
    intro l hl
    induction l with
    | nil => rfl
    | cons d l ih =>
      rw [List.map_cons, List.mapM_cons, fromDigit_toDigit d (hl d List.mem_cons_self),
        ih fun e he => hl e (List.mem_cons_of_mem _ he)]
      rfl
  rw [decodeString, hfilter, encodeToString, hmap (digits_lt src), Option.bind_some, bytes_digits]

theorem encodeToString_injective {src src' : List UInt8} (h : encodeToString src = encodeToString src') : src = src' :=
  Option.some.inj (by rw [← decode_encode, ← decode_encode, h])

end Renop.Base64
