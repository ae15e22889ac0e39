import Renop.ChunkSession

/-!
# Chunk sizes as 64-bit numbers

The sizes of a session once more, in the arithmetic of the machine. No step of it overflows, so the numbers are those of
`normalizeChunkSize` and `Layout`, and the regions of the chunks make up the file without gaps.
-/

namespace Renop.Upload

/-! ### Arithmetic that fits -/

section Fits
variable {a b : Int64} {x y : Int}

/-- The exact result is a 64-bit number. -/
def Fits (x : Int) : Prop := -2 ^ 63 ≤ x ∧ x < 2 ^ 63

theorem bmod_of_fits (h : Fits x) : x.bmod (2 ^ 64) = x := by
  obtain ⟨hlow, hhigh⟩ := h
  exact Int.bmod_eq_of_le (by omega) (by omega)

theorem add_toInt_of_fits (ha : a.toInt = x) (hb : b.toInt = y) (h : Fits (x + y)) : (a + b).toInt = x + y := by
  rw [Int64.toInt_add, ha, hb, bmod_of_fits h]

theorem sub_toInt_of_fits (ha : a.toInt = x) (hb : b.toInt = y) (h : Fits (x - y)) : (a - b).toInt = x - y := by
  rw [Int64.toInt_sub, ha, hb, bmod_of_fits h]

theorem mul_toInt_of_fits (ha : a.toInt = x) (hb : b.toInt = y) (h : Fits (x * y)) : (a * b).toInt = x * y := by
  rw [Int64.toInt_mul, ha, hb, bmod_of_fits h]

theorem fits_toInt (a : Int64) : Fits a.toInt := ⟨a.le_toInt, a.toInt_lt⟩

theorem div_toInt_of_nonneg (ha : a.toInt = x) (hb : b.toInt = y) (hx : 0 ≤ x) (hy : 0 < y) : (a / b).toInt = x / y := by
  have hquot : Int.tdiv x y = x / y := Int.tdiv_eq_ediv_of_nonneg hx
  have hle : x / y ≤ x := Int.ediv_le_self y hx
  have hpos : 0 ≤ x / y := Int.ediv_nonneg hx hy.le
  have hfits := fits_toInt a
  rw [ha] at hfits
  obtain ⟨-, hlt⟩ := hfits
  rw [Int64.toInt_div, ha, hb, hquot, bmod_of_fits ⟨by omega, by omega⟩]

end Fits

/-! ### Bounds -/

section Bounds
variable {totalSize : Int} (requested : Int)

theorem count_le_of_mul {size n : Int} (hsize : 0 < size) (h : totalSize - 1 < n * size) :
    1 + (totalSize - 1) / size ≤ n := by
  have hlt := Int.ediv_lt_of_lt_mul hsize h
  omega

/-- What holds of a size that is chosen for a file. -/
structure GoodSize (totalSize size : Int) : Prop where
  pos : 0 < size
  total : size ≤ totalSize
  most : size ≤ maxChunkSize
  preferred : 1 + (totalSize - 1) / size ≤ maxPreferredChunks ∨ size = maxChunkSize
  least : minChunkSize ≤ size ∨ 1 + (totalSize - 1) / size = 1

theorem GoodSize.whole (h : 0 < totalSize) (hmax : totalSize ≤ maxChunkSize) : GoodSize totalSize totalSize := by
  have hone : (totalSize - 1) / totalSize = 0 := Int.ediv_eq_zero_of_lt (by omega) (by omega)
  refine ⟨h, le_rfl, hmax, .inl ?_, .inr ?_⟩
  · rw [hone]
    decide
  · rw [hone]
    rfl

theorem goodSize_normalizeChunkSize (h : 0 < totalSize) : GoodSize totalSize (normalizeChunkSize totalSize requested) := by
  have hmin : minChunkSize = 262144 := by decide
  have hmax : maxChunkSize = 33554432 := by decide
  have hpreferred : maxPreferredChunks = 2048 := by decide
  unfold normalizeChunkSize
  rw [if_neg (by omega)]
  by_cases hsmall : totalSize ≤ minChunkSize
  · rw [if_pos hsmall]
    exact .whole h (by omega)
  · rw [if_neg hsmall]
    extract_lets size₁ size₂ size₃ size₄
    have h₂ : size₂ ≤ maxChunkSize := by
      show (if maxChunkSize < size₁ then maxChunkSize else size₁) ≤ maxChunkSize
      split_ifs <;> omega
    have h₃ : minChunkSize ≤ size₃ ∧ size₃ ≤ maxChunkSize := by
      show minChunkSize ≤ (if size₂ < minChunkSize then minChunkSize else size₂) ∧
        (if size₂ < minChunkSize then minChunkSize else size₂) ≤ maxChunkSize
      split_ifs <;> omega
    by_cases hone : totalSize ≤ size₃
    · rw [if_pos hone]
      exact .whole h (by omega)
    · rw [if_neg hone]
      by_cases hmany : maxPreferredChunks < 1 + (totalSize - 1) / size₃
      · rw [if_pos hmany]
        have h₄ : minChunkSize ≤ size₄ ∧ size₄ ≤ maxChunkSize :=
          ⟨le_max_right _ _, max_le (min_le_right _ _) (by omega)⟩
        by_cases hone' : totalSize ≤ size₄
        · rw [if_pos hone']
          exact .whole h (by omega)
        · rw [if_neg hone']
          refine ⟨by omega, by omega, h₄.2, ?_, .inl h₄.1⟩
          by_cases hcut : maxChunkSize ≤ 1 + (totalSize - 1) / maxPreferredChunks
          · refine .inr (le_antisymm h₄.2 ?_)
            exact le_trans (le_min hcut le_rfl) (le_max_left _ _)
          · -- the size is the quotient, or more
            have hquot : 1 + (totalSize - 1) / maxPreferredChunks ≤ size₄ :=
              le_trans (le_min le_rfl (by omega)) (le_max_left _ _)
            refine .inl (count_le_of_mul (by omega) ?_)
            rw [hpreferred] at hquot ⊢
            omega
      · rw [if_neg hmany]
        exact ⟨by omega, by omega, h₃.2, .inl (by omega), .inl h₃.1⟩

end Bounds

/-! ### The functions -/

namespace Machine

def minChunkSize : Int64 := 256 * 1024

def defaultChunkSize : Int64 := 4 * 1024 * 1024

def maxChunkSize : Int64 := 32 * 1024 * 1024

def maxPreferredChunks : Int64 := 2048

/-- `SuggestChunkSize` -/
def suggestChunkSize (totalSize : Int64) : Int64 :=
  if totalSize ≤ 0 then defaultChunkSize
  else if totalSize ≤ 8 * 1024 * 1024 then totalSize
  else if totalSize ≤ 32 * 1024 * 1024 then 4 * 1024 * 1024
  else if totalSize ≤ 128 * 1024 * 1024 then 8 * 1024 * 1024
  else if totalSize ≤ 512 * 1024 * 1024 then 16 * 1024 * 1024
  else if totalSize ≤ 2 * 1024 * 1024 * 1024 then 24 * 1024 * 1024
  else maxChunkSize

/-- The number of chunks of `CreateSession`. -/
def chunkCount (totalSize chunkSize : Int64) : Int64 := 1 + (totalSize - 1) / chunkSize

/-- `NormalizeChunkSize` -/
def normalizeChunkSize (totalSize requested : Int64) : Int64 :=
  if totalSize ≤ 0 then
    if 0 < requested then
      if maxChunkSize < requested then maxChunkSize else if requested < minChunkSize then minChunkSize else requested
    else defaultChunkSize
  else if totalSize ≤ minChunkSize then totalSize
  else
    let size := if requested ≤ 0 then suggestChunkSize totalSize else requested
    let size := if maxChunkSize < size then maxChunkSize else size
    let size := if size < minChunkSize then minChunkSize else size
    if totalSize ≤ size then totalSize
    else if maxPreferredChunks < chunkCount totalSize size then
      let size := max (min (1 + (totalSize - 1) / maxPreferredChunks) maxChunkSize) minChunkSize
      if totalSize ≤ size then totalSize else size
    else size

/-- Where `claimChunk` puts a chunk. -/
def offset (chunkSize index : Int64) : Int64 := index * chunkSize

/-- And how long it has to be. -/
def expected (totalSize chunkSize index : Int64) : Int64 :=
  if index = chunkCount totalSize chunkSize - 1 then totalSize - offset chunkSize index else chunkSize

/-! ### They are the functions of the integers -/

section Refines
variable {totalSize requested chunkSize index : Int64}

theorem toInt_ite_le (a b c d : Int64) : (if a ≤ b then c else d).toInt = if a.toInt ≤ b.toInt then c.toInt else
    d.toInt := by
  simp only [← Int64.le_iff_toInt_le]
  exact apply_ite Int64.toInt _ c d

theorem toInt_ite_lt (a b c d : Int64) : (if a < b then c else d).toInt = if a.toInt < b.toInt then c.toInt else d.toInt := by
  simp only [← Int64.lt_iff_toInt_lt]
  exact apply_ite Int64.toInt _ c d

theorem toInt_max (a b : Int64) : (max a b).toInt = max a.toInt b.toInt := by
  show (if a ≤ b then b else a).toInt = _
  rw [toInt_ite_le, Int.max_def]

theorem toInt_min (a b : Int64) : (min a b).toInt = min a.toInt b.toInt := by
  show (if a ≤ b then a else b).toInt = _
  rw [toInt_ite_le, Int.min_def]

theorem toInt_minChunkSize : minChunkSize.toInt = Upload.minChunkSize := by decide

theorem toInt_maxChunkSize : maxChunkSize.toInt = Upload.maxChunkSize := by decide

theorem toInt_suggestChunkSize (totalSize : Int64) :
    (suggestChunkSize totalSize).toInt = Upload.suggestChunkSize totalSize.toInt := by
  unfold suggestChunkSize Upload.suggestChunkSize
  simp only [toInt_ite_le]
  rfl

theorem toInt_chunkCount (htotal : 0 < totalSize.toInt) (hsize : 0 < chunkSize.toInt) :
    (chunkCount totalSize chunkSize).toInt = 1 + (totalSize.toInt - 1) / chunkSize.toInt := by
  have hlt := totalSize.toInt_lt
  have hle : (totalSize.toInt - 1) / chunkSize.toInt ≤ totalSize.toInt - 1 := Int.ediv_le_self _ (by omega)
  have hpos : 0 ≤ (totalSize.toInt - 1) / chunkSize.toInt := Int.ediv_nonneg (by omega) hsize.le
  have hsub : (totalSize - 1).toInt = totalSize.toInt - 1 := sub_toInt_of_fits rfl Int64.toInt_one ⟨by omega, by omega⟩
  have hdiv : ((totalSize - 1) / chunkSize).toInt = (totalSize.toInt - 1) / chunkSize.toInt :=
    div_toInt_of_nonneg hsub rfl (by omega) hsize
  exact add_toInt_of_fits Int64.toInt_one hdiv ⟨by omega, by omega⟩

theorem toInt_normalizeChunkSize (totalSize requested : Int64) :
    (normalizeChunkSize totalSize requested).toInt = Upload.normalizeChunkSize totalSize.toInt requested.toInt := by
  unfold normalizeChunkSize Upload.normalizeChunkSize
  by_cases hpos : totalSize ≤ 0
  · have hpos' : totalSize.toInt ≤ 0 := Int64.le_iff_toInt_le.1 hpos
    rw [if_pos hpos, if_pos hpos']
    simp only [toInt_ite_lt]
    rfl
  · have hpos' : ¬ totalSize.toInt ≤ 0 := fun h => hpos (Int64.le_iff_toInt_le.2 h)
    rw [if_neg hpos, if_neg hpos']
    extract_lets size₁ size₂ size₃ size₄ n₁ n₂ n₃ n₄
    have h₁ : size₁.toInt = n₁ := by
      show (if requested ≤ 0 then suggestChunkSize totalSize else requested).toInt = _
      rw [toInt_ite_le, toInt_suggestChunkSize]
      rfl
    have h₂ : size₂.toInt = n₂ := by
      show (if maxChunkSize < size₁ then maxChunkSize else size₁).toInt = _
      rw [toInt_ite_lt, h₁, toInt_maxChunkSize]
    have h₃ : size₃.toInt = n₃ := by
      show (if size₂ < minChunkSize then minChunkSize else size₂).toInt = _
      rw [toInt_ite_lt, h₂, toInt_minChunkSize]
    have hmin : Upload.minChunkSize ≤ n₃ := by
      show _ ≤ if n₂ < Upload.minChunkSize then Upload.minChunkSize else n₂
      split_ifs <;> omega
    have hmin' : 0 < Upload.minChunkSize := by decide
    have hcount : (chunkCount totalSize size₃).toInt = 1 + (totalSize.toInt - 1) / n₃ := by
      rw [toInt_chunkCount (by omega) (by omega), h₃]
    have hpreferred : (chunkCount totalSize maxPreferredChunks).toInt = 1 + (totalSize.toInt - 1) /
        Upload.maxPreferredChunks := by
      rw [toInt_chunkCount (by omega) (by decide)]
      rfl
    have h₄ : size₄.toInt = n₄ := by
      show (max (min (chunkCount totalSize maxPreferredChunks) maxChunkSize) minChunkSize).toInt = _
      rw [toInt_max, toInt_min, hpreferred, toInt_maxChunkSize, toInt_minChunkSize]
    simp only [toInt_ite_le, toInt_ite_lt, h₃, h₄, hcount, toInt_minChunkSize]
    rfl

variable {l : Layout}

theorem toInt_chunkCount_layout (ht : totalSize.toInt = l.totalSize) (hs : chunkSize.toInt = l.chunkSize)
    (hpos : 0 < l.totalSize) :
    (chunkCount totalSize chunkSize).toInt = l.chunkCount := by
  have hsize := l.chunkSize_pos hpos
  rw [toInt_chunkCount (by omega) (by omega), ht, hs]
  unfold Layout.chunkCount
  rw [if_neg (by omega)]
  push_cast [Nat.cast_sub hpos]
  rfl

theorem toInt_offset {i : Nat} (ht : totalSize.toInt = l.totalSize) (hs : chunkSize.toInt = l.chunkSize)
    (hindex : index.toInt = i) (hi : i < l.chunkCount) : (offset chunkSize index).toInt = l.offset i := by
  have hlt := totalSize.toInt_lt
  have hoffset : i * l.chunkSize < l.totalSize := Layout.lt_totalSize hi
  have hcast : ((i * l.chunkSize : Nat) : Int) = i * l.chunkSize := Nat.cast_mul i l.chunkSize
  have hexact := @mul_toInt_of_fits index chunkSize i l.chunkSize hindex hs
    ⟨by rw [← hcast]; omega, by rw [← hcast]; omega⟩
  unfold offset Layout.offset
  rw [hexact]
  push_cast
  rfl

theorem toInt_expected {i : Nat} (ht : totalSize.toInt = l.totalSize) (hs : chunkSize.toInt = l.chunkSize)
    (hindex : index.toInt = i) (hi : i < l.chunkCount) : (expected totalSize chunkSize index).toInt = l.expected i := by
  have hpos : 0 < l.totalSize := Nat.lt_of_le_of_lt (Nat.zero_le _) (Layout.lt_totalSize hi)
  have hlt := totalSize.toInt_lt
  have hoffset : l.offset i < l.totalSize := Layout.lt_totalSize hi
  have hcount := toInt_chunkCount_layout ht hs hpos
  have hfits := fits_toInt (chunkCount totalSize chunkSize)
  rw [hcount] at hfits
  obtain ⟨-, hfits⟩ := hfits
  have hlast : (chunkCount totalSize chunkSize - 1).toInt = l.chunkCount - 1 :=
    sub_toInt_of_fits hcount Int64.toInt_one ⟨by omega, by omega⟩
  unfold expected Layout.expected
  by_cases hend : i + 1 = l.chunkCount
  · have hindex' : index = chunkCount totalSize chunkSize - 1 := Int64.toInt_inj.1 (by rw [hindex, hlast]; omega)
    rw [if_pos hindex', if_pos hend]
    rw [sub_toInt_of_fits ht (toInt_offset ht hs hindex hi) ⟨by omega, by omega⟩]
    omega
  · have hindex' : index ≠ chunkCount totalSize chunkSize - 1 := by
      intro h
      rw [h, hlast] at hindex
      omega
    rw [if_neg hindex', if_neg hend, hs]

end Refines

/-! ### The chunks of a file -/

/-- The regions of the chunks, as the machine computes them, are not empty, do not overlap and make up the file. -/
structure Geometry (totalSize chunkSize : Int64) : Prop where
  size : 0 < chunkSize ∧ chunkSize ≤ min totalSize maxChunkSize
  count : (chunkCount totalSize chunkSize).toInt = 1 + (totalSize.toInt - 1) / chunkSize.toInt
  exact : ∀ i, 0 ≤ i → i < chunkCount totalSize chunkSize → (offset chunkSize i).toInt = i.toInt * chunkSize.toInt ∧
    (expected totalSize chunkSize i).toInt =
      if i.toInt + 1 = 1 + (totalSize.toInt - 1) / chunkSize.toInt then totalSize.toInt - i.toInt * chunkSize.toInt else
        chunkSize.toInt
  nonempty : ∀ i, 0 ≤ i → i < chunkCount totalSize chunkSize → 0 < expected totalSize chunkSize i
  within : ∀ i, 0 ≤ i → i < chunkCount totalSize chunkSize → 0 ≤ offset chunkSize i ∧
    (offset chunkSize i).toInt + (expected totalSize chunkSize i).toInt ≤ totalSize.toInt
  disjoint : ∀ i j, 0 ≤ i → i < chunkCount totalSize chunkSize → 0 ≤ j →
    j < chunkCount totalSize chunkSize → i ≠ j →
    (offset chunkSize j).toInt + (expected totalSize chunkSize j).toInt ≤ (offset chunkSize i).toInt ∨
      (offset chunkSize i).toInt + (expected totalSize chunkSize i).toInt ≤ (offset chunkSize j).toInt
  cover : ∀ b, 0 ≤ b → b < totalSize → ∃ i, 0 ≤ i ∧ i < chunkCount totalSize chunkSize ∧
    offset chunkSize i ≤ b ∧ b.toInt < (offset chunkSize i).toInt + (expected totalSize chunkSize i).toInt
  preferred : chunkCount totalSize chunkSize ≤ maxPreferredChunks ∨ chunkSize = maxChunkSize
  least : minChunkSize ≤ chunkSize ∨ chunkCount totalSize chunkSize = 1

/-- Whatever size is asked for, no number overflows and the chunks make up the file. -/
theorem geometry_normalizeChunkSize (totalSize requested : Int64) (h : 0 < totalSize) :
    (normalizeChunkSize totalSize requested).toInt = Upload.normalizeChunkSize totalSize.toInt requested.toInt ∧
      Geometry totalSize (normalizeChunkSize totalSize requested) := by
  have hexact := toInt_normalizeChunkSize totalSize requested
  have hpos : 0 < totalSize.toInt := Int64.lt_iff_toInt_lt.1 h
  have hgood := goodSize_normalizeChunkSize requested.toInt hpos
  generalize normalizeChunkSize totalSize requested = chunkSize at hexact ⊢
  refine ⟨hexact, ?_⟩
  rw [← hexact] at hgood
  have hsize := hgood.pos
  let l : Layout := ⟨totalSize.toInt.toNat, chunkSize.toInt.toNat, fun _ => by omega⟩
  have ht : totalSize.toInt = l.totalSize := (Int.toNat_of_nonneg hpos.le).symm
  have hs : chunkSize.toInt = l.chunkSize := (Int.toNat_of_nonneg hsize.le).symm
  have hcount : (chunkCount totalSize chunkSize).toInt = 1 + (totalSize.toInt - 1) / chunkSize.toInt :=
    toInt_chunkCount hpos hsize
  have hlayout : (chunkCount totalSize chunkSize).toInt = l.chunkCount := toInt_chunkCount_layout ht hs (by omega)
  -- an index as a natural number
  have hindex : ∀ i : Int64, 0 ≤ i → i < chunkCount totalSize chunkSize → i.toInt = i.toInt.toNat ∧
      i.toInt.toNat < l.chunkCount := by
    intro i hi hlt
    have hi' : 0 ≤ i.toInt := Int64.le_iff_toInt_le.1 hi
    have hlt' := Int64.lt_iff_toInt_lt.1 hlt
    rw [hlayout] at hlt'
    omega
  have hregion : ∀ i : Int64, 0 ≤ i → i < chunkCount totalSize chunkSize →
    (offset chunkSize i).toInt = l.offset i.toInt.toNat ∧
      (expected totalSize chunkSize i).toInt = l.expected i.toInt.toNat := by
    intro i hi hlt
    obtain ⟨hnat, hlt⟩ := hindex i hi hlt
    exact ⟨toInt_offset ht hs hnat hlt, toInt_expected ht hs hnat hlt⟩
  exact
    { size := by
        rw [Int64.lt_iff_toInt_lt, Int64.le_iff_toInt_le, toInt_min, toInt_maxChunkSize]
        exact ⟨hsize, le_min hgood.total hgood.most⟩
      count := hcount
      exact := by
        intro i hi hlt
        obtain ⟨hoffset, hexpected⟩ := hregion i hi hlt
        obtain ⟨hnat, -⟩ := hindex i hi hlt
        have hmul : ((l.offset i.toInt.toNat : Nat) : Int) = i.toInt * chunkSize.toInt := by
          rw [hs, hnat]
          exact Nat.cast_mul _ _
        refine ⟨hoffset.trans hmul, hexpected.trans ?_⟩
        have hle := Layout.lt_totalSize (hindex i hi hlt).2
        have hend : i.toInt.toNat + 1 = l.chunkCount ↔ i.toInt + 1 = 1 + (totalSize.toInt - 1) / chunkSize.toInt := by
          rw [← hcount, hlayout]
          omega
        unfold Layout.expected
        rw [← hmul]
        simp only [hend]
        split_ifs
        · unfold Layout.offset
          omega
        · exact hs.symm
      nonempty := by
        intro i hi hlt
        rw [Int64.lt_iff_toInt_lt, (hregion i hi hlt).2]
        have hpos := Layout.expected_pos (hindex i hi hlt).2
        show (0 : Int) < _
        omega
      within := by
        intro i hi hlt
        obtain ⟨hoffset, hexpected⟩ := hregion i hi hlt
        have hle := Layout.offset_add_expected_le (hindex i hi hlt).2
        rw [Int64.le_iff_toInt_le, hoffset, hexpected, ht]
        refine ⟨?_, by omega⟩
        show (0 : Int) ≤ _
        omega
      disjoint := by
        intro i j hi hlti hj hltj hne
        have hnat : i.toInt.toNat ≠ j.toInt.toNat := by
          intro heq
          have hi' := (hindex i hi hlti).1
          have hj' := (hindex j hj hltj).1
          exact hne (Int64.toInt_inj.1 (by omega))
        have hdisjoint := @Layout.disjoint l _ _ hnat
        rw [(hregion i hi hlti).1, (hregion i hi hlti).2, (hregion j hj hltj).1, (hregion j hj hltj).2]
        omega
      cover := by
        intro b hb hlt
        have hb' : 0 ≤ b.toInt := Int64.le_iff_toInt_le.1 hb
        have hlt' := Int64.lt_iff_toInt_lt.1 hlt
        obtain ⟨i, hi, hlow, hhigh⟩ := @Layout.exists_chunk l b.toInt.toNat (by omega)
        have hbound := (chunkCount totalSize chunkSize).toInt_lt
        have hnat : (Int64.ofNat i).toInt = i := Int64.toInt_ofNat_of_lt (by omega)
        have hi₀ : 0 ≤ Int64.ofNat i := by
          rw [Int64.le_iff_toInt_le, hnat]
          exact Int.natCast_nonneg i
        have hi₁ : Int64.ofNat i < chunkCount totalSize chunkSize := by
          rw [Int64.lt_iff_toInt_lt, hnat, hlayout]
          omega
        obtain ⟨hoffset, hexpected⟩ := hregion _ hi₀ hi₁
        rw [hnat, Int.toNat_natCast] at hoffset hexpected
        refine ⟨Int64.ofNat i, hi₀, hi₁, ?_, ?_⟩
        · rw [Int64.le_iff_toInt_le, hoffset]
          omega
        · rw [hoffset, hexpected]
          omega
      preferred := by
        rw [Int64.le_iff_toInt_le, hcount, ← Int64.toInt_inj, toInt_maxChunkSize]
        exact hgood.preferred
      least := by
        rw [Int64.le_iff_toInt_le, toInt_minChunkSize, ← Int64.toInt_inj, hcount]
        exact hgood.least }

/-- A file of 64 MiB without a wish, and the longest one. -/
theorem geometry_of_two_files : Geometry 67108864 8388608 ∧ Geometry Int64.maxValue 33554432 := by
  have hfirst := (geometry_normalizeChunkSize 67108864 0 (by decide)).2
  have hlongest := (geometry_normalizeChunkSize Int64.maxValue 262144 (by decide)).2
  have hsize : normalizeChunkSize 67108864 0 = 8388608 := by decide
  have hsize' : normalizeChunkSize Int64.maxValue 262144 = 33554432 := by decide
  rw [hsize] at hfirst
  rw [hsize'] at hlongest
  exact ⟨hfirst, hlongest⟩

end Machine

end Renop.Upload
