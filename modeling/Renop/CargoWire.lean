import Renop.ByteReader
import Renop.SqlTable

/-!
# The publish request

The body of a publish request is the metadata and the crate, each after its length in four bytes. The body is read from the
connection as it arrives; `frame` is what it has to be as a whole.
-/

namespace Renop.Cargo.Wire

open ByteReader
open Sql

/-- What a request still has to deliver, and whether the connection breaks off after it. -/
structure Body where
  pieces : List (List UInt8)
  broken : Bool
deriving DecidableEq, Repr

def Body.bytes (body : Body) : List UInt8 := body.pieces.flatten

/-- A staged file: the room there is for it, and whether it can be closed. -/
structure Stage where
  content : List UInt8
  room : Nat
  closes : Bool
deriving DecidableEq, Repr

/-- A write to the staged file fails when the room is used up. -/
def stageSink : Sink Stage UInt8 where
  write stage a :=
    if a = [] then some stage
    else if stage.content.length + a.length ≤ stage.room then some { stage with content := stage.content ++ a }
    else none
  write_nil stage := by simp
  write_append stage a b := by
    cases a with
    | nil => simp
    | cons x xs =>
      cases b with
      | nil =>
        simp only [List.append_nil]
        split <;> simp
      | cons y ys =>
        simp only [List.cons_append, List.length_cons, List.length_append, reduceCtorEq, if_false]
        by_cases hfit : stage.content.length + (xs.length + 1) ≤ stage.room
        · rw [if_pos hfit, Option.bind_some]
          simp only [List.length_append, List.length_cons, Nat.add_assoc, Nat.add_comm 1, List.append_assoc, List.cons_append]
        · rw [if_neg hfit, if_neg (by omega), Option.bind_none]

def maxCrateSize : Nat := 128 * 2 ^ 20

def maxMetadataSize : Nat := 2 ^ 20

/-- The buffer of a copy. -/
def publishBuffer : Nat := 128 * 2 ^ 10

/-- The least number of bytes that the JSON decoder asks for. -/
def minRead : Nat := 512

theorem publishBuffer_pos : 0 < publishBuffer := by decide

theorem minRead_pos : 0 < minRead := by decide

/-! ### Reading -/

def uint32 (b : List UInt8) : Nat := Nat.ofDigits 256 (b.map UInt8.toNat)

/-- As many of the next `n` bytes as there are. -/
def readFull (n : Nat) (pieces : List (List UInt8)) : List UInt8 × List (List UInt8) :=
  if hn : 0 < n then
    match copy (Sink.buffer UInt8) n hn n pieces [] with
    | some (got, _, rest) => (got, rest)
    | none => ([], pieces)
  else ([], pieces)

def jsonBlank (b : UInt8) : Bool := b = 32 || b = 9 || b = 10 || b = 13

section Receive

/- The JSON decoder: the value at the front of a text and what stands behind it. -/
variable {Metadata : Type} (decode : List UInt8 → Option (Metadata × List UInt8))

/-- The one value of a text, with nothing but blanks behind it. -/
def decodeOnly (text : List UInt8) : Option Metadata :=
  match decode text with
  | some (metadata, extra) => if extra.all jsonBlank then some metadata else none
  | none => none

def readPublishHeader (pieces : List (List UInt8)) (contentLength : Int) :
    Except String (Metadata × Nat × List (List UInt8)) := do
  let (lengthBuffer, pieces) := readFull 4 pieces
  require (4 ≤ lengthBuffer.length) "invalid Cargo publish body"
  let metadataLength := uint32 lengthBuffer
  require (0 < metadataLength ∧ metadataLength ≤ maxMetadataSize) "invalid Cargo publish metadata length"
  let (text, left, pieces) ← orError (copy (Sink.buffer UInt8) minRead minRead_pos metadataLength pieces [])
    "invalid Cargo publish metadata"
  let metadata ← orError (decodeOnly decode text) "invalid Cargo publish metadata"
  require (left = 0) "invalid Cargo publish metadata"
  let (lengthBuffer, pieces) := readFull 4 pieces
  require (4 ≤ lengthBuffer.length) "invalid Cargo publish body"
  let crateLength := uint32 lengthBuffer
  require (0 < crateLength ∧ crateLength ≤ maxCrateSize) "cargo crate exceeds the size limit"
  require (0 < contentLength → contentLength = metadataLength + crateLength + 8) "invalid Cargo publish body length"
  pure (metadata, crateLength, pieces)

/-- Copies the crate into the staged file and into the digest, and looks for a byte too many. -/
def streamCrate (pieces : List (List UInt8)) (broken : Bool) (destination : Stage) (digest : List UInt8) (crateLength : Nat) :
    Except String (Stage × List UInt8) := do
  let (written, left, pieces) ←
    orError (copy (stageSink.multi (Sink.buffer UInt8)) publishBuffer publishBuffer_pos crateLength pieces
      (destination, digest)) "invalid Cargo crate length"
  require (left = 0) "invalid Cargo crate length"
  require (written.1.closes = true) "failed to stage Cargo crate"
  let (trailing, _) := readFull 1 pieces
  require (trailing = []) "invalid trailing Cargo publish data"
  require (broken = false) "invalid Cargo publish body"
  pure written

/-- What the handler has of a body once it is staged: the metadata, the staged file and the text of the digest. -/
def receive (body : Body) (contentLength : Int) (destination : Stage) : Except String (Metadata × Stage × List UInt8) := do
  let (metadata, crateLength, pieces) ← readPublishHeader decode body.pieces contentLength
  let written ← streamCrate pieces body.broken destination [] crateLength
  pure (metadata, written)

end Receive

/-! ### The frame -/

/-- A number in four bytes, the lowest first. -/
def putUint32 (n : Nat) : List UInt8 :=
  [UInt8.ofNat n, UInt8.ofNat (n / 256), UInt8.ofNat (n / 65536), UInt8.ofNat (n / 16777216)]

/-- A body for the text `text` of the metadata and the crate `crate`. -/
def frame (text crate : List UInt8) : List UInt8 :=
  putUint32 text.length ++ text ++ putUint32 crate.length ++ crate

@[simp] theorem putUint32_length (n : Nat) : (putUint32 n).length = 4 := rfl

theorem uint32_putUint32 {n : Nat} (h : n < 2 ^ 32) : uint32 (putUint32 n) = n := by
  simp only [uint32, putUint32, List.map_cons, List.map_nil, Nat.ofDigits_cons, Nat.ofDigits_nil, UInt8.toNat_ofNat']
  omega

theorem map_toNat_injective : Function.Injective (List.map UInt8.toNat) :=
  List.map_injective_iff.2 fun _ _ h => UInt8.toNat_inj.1 h

theorem digit_lt (b : List UInt8) : ∀ d ∈ b.map UInt8.toNat, d < 256 := by
  intro d hd
  obtain ⟨x, -, rfl⟩ := List.mem_map.1 hd
  exact x.toNat_lt

theorem uint32_lt {b : List UInt8} (h : b.length = 4) : uint32 b < 2 ^ 32 := by
  have hlt := Nat.ofDigits_lt_base_pow_length (by omega : 1 < 256) (digit_lt b)
  rw [List.length_map, h] at hlt
  exact hlt

theorem putUint32_uint32 {b : List UInt8} (h : b.length = 4) : putUint32 (uint32 b) = b := by
  apply map_toNat_injective
  apply Nat.ofDigits_inj_of_len_eq (by omega : 1 < 256) (by simp [h]) (digit_lt _) (digit_lt _)
  exact uint32_putUint32 (uint32_lt h)

/-! ### What is accepted -/

section Accepted

theorem readFull_eq (n : Nat) (pieces : List (List UInt8)) :
    ∃ rest, rest.flatten = pieces.flatten.drop n ∧ readFull n pieces = (pieces.flatten.take n, rest) := by
  unfold readFull
  split
  · next hn =>
    obtain ⟨rest, hrest, hcopy⟩ := @copy_eq UInt8 _ (Sink.buffer UInt8) n hn n pieces []
    refine ⟨rest, hrest, ?_⟩
    rw [hcopy]
    rfl
  · next hn =>
    obtain rfl : n = 0 := by omega
    exact ⟨pieces, by simp, by simp⟩

variable {Metadata : Type} {decode : List UInt8 → Option (Metadata × List UInt8)} {pieces : List (List UInt8)}
    {crateLength : Nat}

theorem ok_bind_except {α β : Type} (a : α) (f : α → Except String β) : (Except.ok a >>= f) = f a := rfl

theorem orError_some {α : Type} (a : α) (e : String) : orError (some a) e = .ok a := rfl

/-- A header is read off the front of the bytes, in whatever pieces they arrive. -/
theorem readPublishHeader_ok {bytes : List UInt8} {contentLength : Int} {metadata : Metadata} :
    (∃ rest, rest.flatten = bytes ∧ readPublishHeader decode pieces contentLength = .ok (metadata, crateLength, rest)) ↔
      ∃ text, pieces.flatten = putUint32 text.length ++ text ++ putUint32 crateLength ++ bytes ∧
        0 < text.length ∧ text.length ≤ maxMetadataSize ∧ decodeOnly decode text = some metadata ∧
        0 < crateLength ∧ crateLength ≤ maxCrateSize ∧
        (0 < contentLength → contentLength = text.length + crateLength + 8) := by
  obtain ⟨rest₁, h₁, hlength⟩ := readFull_eq 4 pieces
  obtain ⟨rest₂, h₂, htext⟩ :=
    @copy_eq UInt8 _ (Sink.buffer UInt8) minRead minRead_pos (uint32 (pieces.flatten.take 4)) rest₁ []
  obtain ⟨rest₃, h₃, hcrate⟩ := readFull_eq 4 rest₂
  have hwrite : (Sink.buffer UInt8).write [] (rest₁.flatten.take (uint32 (pieces.flatten.take 4))) =
      some (rest₁.flatten.take (uint32 (pieces.flatten.take 4))) := rfl
  rw [hwrite, Option.map_some] at htext
  unfold readPublishHeader
  simp only [hlength, htext, orError_some, ok_bind_except, hcrate, bind_ok, require_ok, orError_ok, exists_const, h₁, h₂]
  generalize pieces.flatten = all at *
  constructor
  · rintro ⟨rest, rfl, hfour, ⟨hpos, hmax⟩, m, hm, hleft, hfour', ⟨hcpos, hcmax⟩, hlen, h⟩
    cases h
    rw [List.length_take] at hfour hfour'
    rw [List.length_drop] at hleft
    rw [List.length_drop, List.length_drop] at hfour'
    have htextLength : ((all.drop 4).take (uint32 (all.take 4))).length = uint32 (all.take 4) := by
      rw [List.length_take, List.length_drop]
      omega
    refine ⟨(all.drop 4).take (uint32 (all.take 4)), ?_, ?_⟩
    · rw [htextLength, putUint32_uint32 (by rw [List.length_take]; omega), putUint32_uint32 (by simp; omega),
        h₃, h₂, h₁]
      simp only [List.append_assoc, List.take_append_drop]
    · rw [htextLength]
      exact ⟨hpos, hmax, hm, hcpos, hcmax, hlen⟩
  · rintro ⟨text, rfl, hpos, hmax, hm, hcpos, hcmax, hlen⟩
    have hsmall : uint32 (putUint32 text.length) = text.length := uint32_putUint32 (hmax.trans_lt (by decide))
    have hcsmall : uint32 (putUint32 crateLength) = crateLength := uint32_putUint32 (hcmax.trans_lt (by decide))
    have htake : (putUint32 text.length ++ (text ++ (putUint32 crateLength ++ bytes))).take 4 = putUint32 text.length :=
      List.take_left' rfl
    have hdrop : (putUint32 text.length ++ (text ++ (putUint32 crateLength ++ bytes))).drop 4 =
        text ++ (putUint32 crateLength ++ bytes) := List.drop_left' rfl
    have hcrateLength : (putUint32 crateLength ++ bytes).take 4 = putUint32 crateLength := List.take_left' rfl
    have hbytes : (putUint32 crateLength ++ bytes).drop 4 = bytes := List.drop_left' rfl
    simp only [List.append_assoc] at *
    rw [htake, hsmall] at h₂ ⊢
    rw [hdrop] at h₁ ⊢
    rw [h₁, List.drop_left] at h₂
    rw [h₂, hbytes] at h₃
    rw [List.take_left, List.drop_left, hcrateLength, hcsmall]
    refine ⟨rest₃, h₃, le_rfl, ⟨hpos, hmax⟩, metadata, hm, ?_, le_rfl, ⟨hcpos, hcmax⟩, hlen, rfl⟩
    rw [List.length_append]
    omega

theorem stageSink_write {stage stage' : Stage} {a : List UInt8} :
    stageSink.write stage a = some stage' ↔
      (a = [] ∨ stage.content.length + a.length ≤ stage.room) ∧
        stage' = { stage with content := stage.content ++ a } := by
  show (if a = [] then some stage
    else if stage.content.length + a.length ≤ stage.room then some { stage with content := stage.content ++ a } else none) =
      _ ↔ _
  by_cases hnil : a = []
  · subst hnil
    simp only [if_true, true_or, true_and, List.append_nil, Option.some.injEq]
    exact eq_comm
  · by_cases hfit : stage.content.length + a.length ≤ stage.room <;> simp [hnil, hfit, eq_comm]

theorem multi_write {stage stage' : Stage} {digest digest' a : List UInt8} :
    (stageSink.multi (Sink.buffer UInt8)).write (stage, digest) a = some (stage', digest') ↔
      stageSink.write stage a = some stage' ∧ digest' = digest ++ a := by
  show ((stageSink.write stage a).bind fun l => (some (digest ++ a)).map fun r => (l, r)) = _ ↔ _
  cases stageSink.write stage a <;> simp [eq_comm]

theorem streamCrate_ok {digest digest' : List UInt8} {broken : Bool} {destination stage : Stage} :
    streamCrate pieces broken destination digest crateLength = .ok (stage, digest') ↔
      pieces.flatten.length = crateLength ∧ broken = false ∧ destination.closes = true ∧
        (pieces.flatten = [] ∨ destination.content.length + pieces.flatten.length ≤ destination.room) ∧
        stage = { destination with content := destination.content ++ pieces.flatten } ∧
          digest' = digest ++ pieces.flatten := by
  obtain ⟨rest, hrest, hcopy⟩ := @copy_eq UInt8 _ (stageSink.multi (Sink.buffer UInt8)) publishBuffer publishBuffer_pos
    crateLength pieces (destination, digest)
  obtain ⟨last, -, htrailing⟩ := readFull_eq 1 rest
  unfold streamCrate
  rw [hcopy]
  simp only [bind_ok, require_ok, orError_ok, exists_const, Option.map_eq_some_iff]
  constructor
  · rintro ⟨_, ⟨written, hwrite, rfl⟩, hleft, hcloses, htrail, hbroken, h⟩
    cases h
    rw [multi_write, stageSink_write] at hwrite
    obtain ⟨⟨hroom, hstage⟩, hdigest⟩ := hwrite
    rw [htrailing, hrest] at htrail
    have hleft : crateLength - pieces.flatten.length = 0 := hleft
    have hlen : pieces.flatten.length = crateLength := by
      rw [List.take_eq_nil_iff, List.drop_eq_nil_iff] at htrail
      omega
    rw [List.take_of_length_le hlen.le] at hroom hstage hdigest
    rw [hstage] at hcloses
    exact ⟨hlen, hbroken, hcloses, hroom, hstage, hdigest⟩
  · rintro ⟨rfl, hbroken, hcloses, hroom, rfl, rfl⟩
    rw [List.take_length]
    refine ⟨_, ⟨_, multi_write.2 ⟨stageSink_write.2 ⟨hroom, rfl⟩, rfl⟩, rfl⟩, Nat.sub_self _, hcloses, ?_,
      hbroken, rfl⟩
    rw [htrailing, hrest, List.drop_length]
    rfl

/-- A body is accepted, in whatever pieces it arrives, when it is the frame of one metadata value and of a crate within their
bounds, with nothing after it; the crate is what is staged and digested. -/
theorem receive_accepts (body : Body) (contentLength : Int) (destination stage : Stage) (metadata : Metadata)
    (digest : List UInt8) :
    receive decode body contentLength destination = .ok (metadata, stage, digest) ↔
      ∃ text crate, body.bytes = frame text crate ∧ body.broken = false ∧
        0 < text.length ∧ text.length ≤ maxMetadataSize ∧ decodeOnly decode text = some metadata ∧
        0 < crate.length ∧ crate.length ≤ maxCrateSize ∧
          (0 < contentLength → contentLength = (frame text crate).length) ∧
        destination.closes = true ∧ destination.content.length + crate.length ≤ destination.room ∧
        stage = { destination with content := destination.content ++ crate } ∧ digest = crate := by
  have hframe : ∀ text crate : List UInt8, (frame text crate).length = text.length + crate.length + 8 := by
    intro text crate
    simp only [frame, List.length_append, putUint32_length]
    omega
  unfold receive
  simp only [bind_ok, hframe]
  constructor
  · rintro ⟨⟨m, n, rest⟩, hheader, written, hcrate, h⟩
    cases h
    obtain ⟨text, hbytes, hpos, hmax, hm, hcpos, hcmax, hlen⟩ := readPublishHeader_ok.1 ⟨rest, rfl, hheader⟩
    dsimp only at hcrate
    obtain ⟨rfl, hbroken, hcloses, hroom, hstage, hdigest⟩ := streamCrate_ok.1 hcrate
    have hne : rest.flatten ≠ [] := List.length_pos_iff.1 hcpos
    exact ⟨text, rest.flatten, hbytes, hbroken, hpos, hmax, hm, hcpos, hcmax,
      fun h => by rw [hlen h]; norm_cast, hcloses, hroom.resolve_left hne, hstage, hdigest⟩
  · rintro ⟨text, crate, hbytes, hbroken, hpos, hmax, hm, hcpos, hcmax, hlen, hcloses, hroom, rfl, rfl⟩
    obtain ⟨rest, hrest, hheader⟩ := readPublishHeader_ok.2
      ⟨text, hbytes, hpos, hmax, hm, hcpos, hcmax, fun h => by rw [hlen h]; norm_cast⟩
    refine ⟨_, hheader, _, streamCrate_ok.2 ⟨?_, hbroken, hcloses, .inr ?_, rfl, rfl⟩, ?_⟩
    · rw [hrest]
    · rwa [hrest]
    · rw [hrest]
      rfl

end Accepted

end Renop.Cargo.Wire
