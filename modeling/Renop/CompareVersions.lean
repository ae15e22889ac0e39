import Mathlib.Data.List.Induction
import Mathlib.Data.List.TakeWhile
import Renop.PaddedLex

/-!
# Comparison of versions

`CompareVersions` reads two version strings fragment by fragment. A version is the list of its bytes.
-/

namespace Renop.Version

open Std PaddedLex

abbrev Text := List UInt8

def text (s : String) : Text := s.toUTF8.data.toList

def isSep (c : UInt8) : Bool := c == '-'.toUInt8 || c == '.'.toUInt8 || c == '_'.toUInt8

/-- The fragment of an exhausted side. -/
def zero : Text := ['0'.toUInt8]

def isDigits (frag : Text) : Bool := frag ≠ [] && frag.all fun c => '0'.toUInt8 ≤ c && c ≤ '9'.toUInt8

def stripZeros (frag : Text) : Text := frag.dropWhile (· == '0'.toUInt8)

/-- The next fragment after the separators, the count of parts, and what is left. -/
def nextFragment (s : Text) (partsCount : Nat) : Text × Nat × Text :=
  if s = [] then (zero, partsCount, [])
  else
    let frag := s.takeWhile fun c => !isSep c
    (frag, if 0 < frag.length then partsCount + 1 else partsCount, s.dropWhile fun c => !isSep c)

/-- What the loop returns for two fragments, or `none` if it goes on. -/
def compareFragment (aFrag bFrag : Text) : Option Int :=
  let aIsDigit := isDigits aFrag
  let bIsDigit := isDigits bFrag
  let byKind : Option Int :=
    if aIsDigit && bIsDigit then
      let aStripped := stripZeros aFrag
      let bStripped := stripZeros bFrag
      if aStripped.length ≠ bStripped.length then
        if aStripped.length < bStripped.length then some (-1) else some 1
      else if aStripped ≠ bStripped then
        if aStripped < bStripped then some (-1) else some 1
      else none
    else if aIsDigit || bIsDigit then
      if aIsDigit then some 1 else some (-1)
    else none
  byKind.or (if aFrag ≠ bFrag then (if aFrag < bFrag then some (-1) else some 1) else none)

def compareCounts (aPartsCount bPartsCount : Nat) : Int :=
  if aPartsCount < bPartsCount then -1 else if aPartsCount > bPartsCount then 1 else 0

theorem length_dropWhile_le (p : UInt8 → Bool) (s : Text) : (s.dropWhile p).length ≤ s.length :=
  (List.dropWhile_suffix p).length_le

theorem length_nextFragment_le (s : Text) (n : Nat) : (nextFragment s n).2.2.length ≤ s.length := by
  unfold nextFragment
  split
  · simp
  · exact length_dropWhile_le _ s

theorem length_nextFragment_lt {s : Text} {n : Nat} {c : UInt8} (hs : s.head? = some c) (hc : isSep c = false) :
    (nextFragment s n).2.2.length < s.length := by
  obtain ⟨t, rfl⟩ : ∃ t, s = c :: t := by
    rcases s with _ | ⟨d, t⟩
    · cases hs
    · exact ⟨t, by simpa using hs⟩
  have hle := length_dropWhile_le (fun c => !isSep c) t
  simp only [nextFragment, reduceCtorEq, if_false, List.dropWhile_cons, hc, Bool.not_false, if_true, List.length_cons]
  omega

theorem head?_dropWhile {s : Text} (h : s.dropWhile isSep ≠ []) :
    ∃ c, (s.dropWhile isSep).head? = some c ∧ isSep c = false := by
  obtain ⟨c, t, heq⟩ := List.exists_cons_of_ne_nil h
  have hc := List.head_dropWhile_not isSep h
  simp only [heq, List.head_cons] at hc
  exact ⟨c, by rw [heq]; rfl, by simpa using hc⟩

/-- The loop from two positions on, each given by the text after it. -/
def compareFrom (a b : Text) (aPartsCount bPartsCount : Nat) : Int :=
  if a ≠ [] ∨ b ≠ [] then
    let a' := a.dropWhile isSep
    let b' := b.dropWhile isSep
    if a' = [] ∧ b' = [] then compareCounts aPartsCount bPartsCount
    else
      let nextA := nextFragment a' aPartsCount
      let nextB := nextFragment b' bPartsCount
      match compareFragment nextA.1 nextB.1 with
      | some result => result
      | none => compareFrom nextA.2.2 nextB.2.2 nextA.2.1 nextB.2.1
  else compareCounts aPartsCount bPartsCount
termination_by a.length + b.length
decreasing_by
  rename_i h
  have ha := length_dropWhile_le isSep a
  have hb := length_dropWhile_le isSep b
  have ha' := length_nextFragment_le (a.dropWhile isSep) aPartsCount
  have hb' := length_nextFragment_le (b.dropWhile isSep) bPartsCount
  rcases not_and_or.1 h with hne | hne
  · obtain ⟨c, hc, hsep⟩ := head?_dropWhile hne
    have hlt := length_nextFragment_lt (n := aPartsCount) hc hsep
    omega
  · obtain ⟨c, hc, hsep⟩ := head?_dropWhile hne
    have hlt := length_nextFragment_lt (n := bPartsCount) hc hsep
    omega

def compareVersions (a b : Text) : Int := compareFrom a b 0 0

/-! ### Fragments -/

/-- The non-empty fragments between separators. -/
def fragments (s : Text) : List Text := (s.splitOnP isSep).filter (· ≠ [])

@[simp] theorem fragments_nil : fragments [] = [] := rfl

theorem fragments_sep {c : UInt8} (hc : isSep c = true) (s : Text) : fragments (c :: s) = fragments s := by
  simp [fragments, List.splitOnP_cons_eq_if_modifyHead, hc]

theorem fragments_dropWhile (s : Text) : fragments (s.dropWhile isSep) = fragments s := by
  induction s with
  | nil => rfl
  | cons c s ih =>
    rw [List.dropWhile_cons]
    split
    · rename_i hc
      rw [fragments_sep hc, ih]
    · rfl

theorem fragments_cons {c : UInt8} {s : Text} (hs : s.head? = some c) (hc : isSep c = false) :
    fragments s = s.takeWhile (fun c => !isSep c) :: fragments (s.dropWhile fun c => !isSep c) := by
  have hne : s.takeWhile (fun c => !isSep c) ≠ [] := by
    rcases s with _ | ⟨d, t⟩
    · cases hs
    · obtain rfl : d = c := by simpa using hs
      simp [hc]
  have hfrag : ∀ x ∈ s.takeWhile (fun c => !isSep c), isSep x = false := by
    intro x hx
    simpa using List.mem_takeWhile_imp hx
  have hsplit := List.takeWhile_append_dropWhile (p := fun c => !isSep c) (l := s)
  rcases hrest : s.dropWhile (fun c => !isSep c) with _ | ⟨d, t⟩
  · rw [hrest, List.append_nil] at hsplit
    rw [hsplit] at hne hfrag ⊢
    simp [fragments, List.splitOnP_eq_singleton hfrag, hne]
  · have hd : isSep d = true := by
      have hdrop := List.head_dropWhile_not (fun c => !isSep c) (l := s) (by simp [hrest])
      simpa [hrest] using hdrop
    rw [hrest] at hsplit
    have hs' : fragments s = fragments (s.takeWhile (fun c => !isSep c) ++ d :: t) := by rw [hsplit]
    rw [hs', fragments_sep hd]
    simp [fragments, List.splitOnP_append_cons_of_forall_mem hfrag d hd, hne]

/-! ### The order of fragments -/

def toInt : Ordering → Int
  | .lt => -1
  | .eq => 0
  | .gt => 1

/-- What the loop returns after a comparison, or `none` if the next one decides. -/
def verdict : Ordering → Option Int
  | .eq => none
  | o => some (toInt o)

theorem verdict_then (o p : Ordering) : verdict (o.then p) = (verdict o).or (verdict p) := by
  cases o <;> rfl

theorem verdict_eq_none {o : Ordering} : verdict o = none ↔ o = .eq := by
  cases o <;> simp [verdict]

theorem toInt_then_of_verdict {o : Ordering} {result : Int} (h : verdict o = some result) (p : Ordering) :
    toInt (o.then p) = result := by
  cases o with
  | eq => cases h
  | lt => exact Option.some.inj h
  | gt => exact Option.some.inj h

theorem toInt_swap (o : Ordering) : toInt o.swap = -toInt o := by
  cases o <;> rfl

theorem toInt_nonpos {o : Ordering} : toInt o ≤ 0 ↔ o.isLE := by
  cases o <;> decide

theorem toInt_pos {o : Ordering} : 0 < toInt o ↔ o = .gt := by
  cases o <;> decide

theorem toInt_eq_zero {o : Ordering} : toInt o = 0 ↔ o = .eq := by
  cases o <;> decide

theorem verdict_compareOn {α β : Type} [Ord β] [LawfulEqOrd β] [LT β] [DecidableEq β] [DecidableLT β] (f : α → β)
    {x y : α} (hlt : compare (f x) (f y) = .lt ↔ f x < f y) :
    verdict (compareOn f x y) = if f x ≠ f y then (if f x < f y then some (-1) else some 1) else none := by
  by_cases heq : f x = f y
  · rw [if_neg (not_not.2 heq), compareOn, LawfulEqOrd.compare_eq_iff_eq.2 heq]
    rfl
  · rw [if_pos heq, compareOn]
    have hne : compare (f x) (f y) ≠ .eq := fun h => heq (LawfulEqOrd.eq_of_compare h)
    by_cases hxy : f x < f y
    · rw [if_pos hxy, hlt.2 hxy]
      rfl
    · rw [if_neg hxy]
      have hnlt : compare (f x) (f y) ≠ .lt := fun h => hxy (hlt.1 h)
      rcases hc : compare (f x) (f y)
      · exact absurd hc hnlt
      · exact absurd hc hne
      · rfl

theorem compare_text_lt {s t : Text} : compare s t = .lt ↔ s < t := by
  induction s generalizing t with
  | nil =>
    rcases t with _ | ⟨d, t⟩
    · simp
    · simp
  | cons c s ih =>
    rcases t with _ | ⟨d, t⟩
    · simp
    · have hcd : compare c d = .lt ↔ c < d := compare_eq_lt
      rw [List.compare_eq_compareLex, List.compareLex_cons_cons, List.cons_lt_cons_iff, Ordering.then_eq_lt,
        ← List.compare_eq_compareLex, ih, hcd, LawfulEqOrd.compare_eq_iff_eq]

/-- The digits without leading zeros; of a fragment that is no number, nothing. -/
def stripped (frag : Text) : Text := if isDigits frag then stripZeros frag else []

/-- A number is above other fragments. Numbers go by their value, and then, as the other fragments, by their text. -/
def fragmentCmp : Text → Text → Ordering :=
  compareLex (compareOn isDigits) (compareLex (compareOn fun f => (stripped f).length)
    (compareLex (compareOn stripped) (compareOn id)))

instance : TransCmp fragmentCmp := by
  unfold fragmentCmp
  infer_instance

instance : LawfulEqCmp fragmentCmp where
  compare_self := ReflCmp.compare_self
  eq_of_compare {a b} h := by
    obtain ⟨-, h⟩ := compareLex_eq_eq.1 h
    obtain ⟨-, h⟩ := compareLex_eq_eq.1 h
    obtain ⟨-, h⟩ := compareLex_eq_eq.1 h
    exact LawfulEqOrd.eq_of_compare (α := Text) h

theorem compareFragment_eq (a b : Text) : compareFragment a b = verdict (fragmentCmp a b) := by
  have hlen := verdict_compareOn (fun f : Text => (stripped f).length) (x := a) (y := b) Nat.compare_eq_lt
  have hstripped := verdict_compareOn stripped (x := a) (y := b) compare_text_lt
  have hraw := verdict_compareOn (id : Text → Text) (x := a) (y := b) compare_text_lt
  have hsplit : verdict (fragmentCmp a b) = (verdict (compareOn isDigits a b)).or
      ((verdict (compareOn (fun f : Text => (stripped f).length) a b)).or
        ((verdict (compareOn stripped a b)).or (verdict (compareOn id a b)))) := by
    simp only [fragmentCmp, compareLex, verdict_then]
  rw [hsplit, hlen, hstripped, hraw]
  rcases ha : isDigits a <;> rcases hb : isDigits b
  · simp [compareFragment, compareOn, stripped, ha, hb, verdict]
  · simp [compareFragment, compareOn, ha, hb, verdict, toInt, show compare false true = .lt from rfl]
  · simp [compareFragment, compareOn, ha, hb, verdict, toInt, show compare true false = .gt from rfl]
  · simp only [compareFragment, compareOn, stripped, ha, hb, verdict, show compare true true = .eq from rfl, Bool.and_self,
      if_true, Option.none_or, id]
    by_cases hl : (stripZeros a).length ≠ (stripZeros b).length
    · simp only [if_pos hl]
      split <;> rfl
    · simp only [if_neg hl, Option.none_or]

/-! ### The loop -/

theorem nextFragment_eq (s : Text) (n : Nat) :
    ∃ rest, nextFragment (s.dropWhile isSep) n = ((fragments s).headD zero,
      n + (fragments s).length - (fragments rest).length, rest) ∧ fragments rest = (fragments s).tail := by
  by_cases hne : s.dropWhile isSep = []
  · have hfrag : fragments s = [] := by rw [← fragments_dropWhile, hne, fragments_nil]
    exact ⟨[], by simp [nextFragment, hne, hfrag], by simp [hfrag]⟩
  · obtain ⟨c, hc, hsep⟩ := head?_dropWhile hne
    have hfrag := fragments_cons hc hsep
    rw [fragments_dropWhile] at hfrag
    have hlen : 0 < ((s.dropWhile isSep).takeWhile fun c => !isSep c).length := by
      obtain ⟨d, t, heq⟩ := List.exists_cons_of_ne_nil hne
      obtain rfl : d = c := by simpa [heq] using hc
      simp [heq, hsep]
    refine ⟨(s.dropWhile isSep).dropWhile fun c => !isSep c, ?_, by simp [hfrag]⟩
    simp only [nextFragment, if_neg hne, if_pos hlen, hfrag, List.headD_cons, List.length_cons]
    congr 2
    omega

/-- The order of versions: fragment by fragment, `0` standing for a missing one, and then by the number of fragments. -/
def versionCmp (a b : Text) : Ordering := paddedLex fragmentCmp zero (fragments a) (fragments b)

theorem compareCounts_eq (m n : Nat) : compareCounts m n = toInt (compare m n) := by
  unfold compareCounts
  rcases Nat.lt_trichotomy m n with h | rfl | h
  · rw [if_pos h, Nat.compare_eq_lt.2 h]
    rfl
  · rw [if_neg (by omega), if_neg (by omega), Nat.compare_eq_eq.2 rfl]
    rfl
  · rw [if_neg (by omega), if_pos h, Nat.compare_eq_gt.2 h]
    rfl

theorem fragments_eq_nil {s : Text} (h : s.dropWhile isSep = []) : fragments s = [] := by
  rw [← fragments_dropWhile, h, fragments_nil]

theorem compareFrom_eq (a b : Text) (m n : Nat) :
    compareFrom a b m n =
      toInt ((padded fragmentCmp zero (fragments a) (fragments b)).then
        (compare (m + (fragments a).length) (n + (fragments b).length))) := by
  fun_induction compareFrom a b m n with
  | case1 a b m n _ a' b' h =>
    rw [fragments_eq_nil h.1, fragments_eq_nil h.2, compareCounts_eq]
    rfl
  | case2 a b m n _ a' b' _ nextA nextB result hresult =>
    obtain ⟨restA, hA, -⟩ := nextFragment_eq a m
    obtain ⟨restB, hB, -⟩ := nextFragment_eq b n
    rw [show nextA = _ from hA, show nextB = _ from hB, compareFragment_eq] at hresult
    rw [padded_eq, Ordering.then_assoc]
    exact (toInt_then_of_verdict hresult _).symm
  | case3 a b m n _ a' b' _ nextA nextB hnone ih =>
    obtain ⟨restA, hA, hrestA⟩ := nextFragment_eq a m
    obtain ⟨restB, hB, hrestB⟩ := nextFragment_eq b n
    rw [show nextA = _ from hA, show nextB = _ from hB] at ih
    rw [show nextA = _ from hA, show nextB = _ from hB, compareFragment_eq] at hnone
    have hlenA : (fragments restA).length ≤ (fragments a).length := by rw [hrestA, List.length_tail]; omega
    have hlenB : (fragments restB).length ≤ (fragments b).length := by rw [hrestB, List.length_tail]; omega
    rw [show nextA = _ from hA, show nextB = _ from hB, ih, padded_eq (fragments a), verdict_eq_none.1 hnone, ← hrestA,
      ← hrestB]
    congr 3
    · show m + (fragments a).length - (fragments restA).length + (fragments restA).length = m + (fragments a).length
      omega
    · show n + (fragments b).length - (fragments restB).length + (fragments restB).length = n + (fragments b).length
      omega
  | case4 a b m n h =>
    obtain ⟨rfl, rfl⟩ : a = [] ∧ b = [] := by
      rw [not_or, not_not, not_not] at h
      exact h
    rw [compareCounts_eq]
    rfl

theorem compareVersions_eq (a b : Text) : compareVersions a b = toInt (versionCmp a b) := by
  rw [compareVersions, compareFrom_eq, versionCmp, paddedLex, compareLex, compareOn, Nat.zero_add, Nat.zero_add]

instance : TransCmp versionCmp where
  eq_swap := @fun a b => @OrientedCmp.eq_swap _ (paddedLex fragmentCmp zero) _ (fragments a) (fragments b)
  isLE_trans := @fun a b c => @TransCmp.isLE_trans _ (paddedLex fragmentCmp zero) _ (fragments a) (fragments b) (fragments c)

theorem versionCmp_eq_eq {a b : Text} : versionCmp a b = .eq ↔ fragments a = fragments b :=
  @LawfulEqCmp.compare_eq_iff_eq _ (paddedLex fragmentCmp zero) _ _ _

theorem compareVersions_eq_zero {a b : Text} : compareVersions a b = 0 ↔ fragments a = fragments b := by
  rw [compareVersions_eq, toInt_eq_zero, versionCmp_eq_eq]

/-! ### The latest version -/

/-- `slices.SortFunc` with `CompareVersions`. The sort is not stable. -/
structure SortFunc where
  sort : List Text → List Text
  perm (versions : List Text) : (sort versions).Perm versions
  sorted (versions : List Text) : (sort versions).Pairwise fun a b => compareVersions a b ≤ 0

/-- The latest version of the metadata, after a version was deleted. -/
def metadataLatest (sortFunc : SortFunc) (versions : List Text) : Option Text := (sortFunc.sort versions).getLast?

/-- The latest version of the catalog, over the rows of a query. -/
def catalogLatest (rows : List Text) : Text :=
  rows.foldl (fun latest version => if latest = [] ∨ 0 < compareVersions version latest then version else latest) []

theorem greatest_metadataLatest (sortFunc : SortFunc) {versions : List Text} (hne : versions ≠ []) :
    ∃ latest, metadataLatest sortFunc versions = some latest ∧ Greatest versionCmp versions latest := by
  have hsorted : (sortFunc.sort versions).Pairwise fun a b => (versionCmp a b).isLE := by
    refine (sortFunc.sorted versions).imp fun {a b} h => ?_
    rw [compareVersions_eq] at h
    exact toInt_nonpos.1 h
  have hsort : sortFunc.sort versions ≠ [] := fun h => hne (by simpa [h] using (sortFunc.perm versions).symm)
  exact ⟨_, List.getLast?_eq_some_getLast hsort, (Greatest.getLast hsorted hsort).perm (sortFunc.perm versions)⟩

theorem greatest_catalogLatest {rows : List Text} (hrows : ∀ row ∈ rows, row ≠ []) (hne : rows ≠ []) :
    Greatest versionCmp rows (catalogLatest rows) := by
  induction rows using List.reverseRecOn with
  | nil => exact absurd rfl hne
  | append_singleton rows row ih =>
    have hstep : catalogLatest (rows ++ [row]) =
        if catalogLatest rows = [] ∨ 0 < compareVersions row (catalogLatest rows) then row else catalogLatest rows := by
      rw [catalogLatest, List.foldl_append]
      rfl
    rw [hstep]
    by_cases hnil : rows = []
    · subst hnil
      rw [if_pos (Or.inl (show catalogLatest [] = [] from rfl))]
      exact Greatest.singleton
    · have hg := ih (fun r hr => hrows r (List.mem_append_left _ hr)) hnil
      have hlatest : catalogLatest rows ≠ [] := hrows _ (List.mem_append_left _ hg.1)
      have hcond : (catalogLatest rows = [] ∨ 0 < compareVersions row (catalogLatest rows)) ↔
          versionCmp row (catalogLatest rows) = .gt := by
        rw [compareVersions_eq, toInt_pos]
        simp [hlatest]
      simp only [hcond]
      exact hg.concat

/-- `CompareVersions` orders the lists of fragments. The two latest versions have the same fragments, whatever the order of
the rows, and are the same version where the fragments tell the versions apart. -/
theorem compareVersions_latest (sortFunc : SortFunc) :
    (∀ a b, compareVersions a b = -compareVersions b a) ∧
    (∀ a b c, compareVersions a b ≤ 0 → compareVersions b c ≤ 0 → compareVersions a c ≤ 0) ∧
    (∀ a b, compareVersions a b = 0 ↔ fragments a = fragments b) ∧
    ∀ versions rows, versions ≠ [] → (∀ v ∈ versions, v ≠ []) → rows.Perm versions →
      ∃ latest, metadataLatest sortFunc versions = some latest ∧ latest ∈ versions ∧
        catalogLatest rows ∈ versions ∧
        (∀ v ∈ versions, compareVersions v latest ≤ 0) ∧ fragments (catalogLatest rows) = fragments latest ∧
        ((∀ v ∈ versions, ∀ w ∈ versions, fragments v = fragments w → v = w) → catalogLatest rows = latest) := by
  refine ⟨fun a b => ?_, fun a b c hab hbc => ?_, fun a b => ?_, fun versions rows hne hnonempty hperm => ?_⟩
  · rw [compareVersions_eq, compareVersions_eq, ← toInt_swap, ← OrientedCmp.eq_swap]
  · rw [compareVersions_eq, toInt_nonpos] at hab hbc ⊢
    exact TransCmp.isLE_trans hab hbc
  · exact compareVersions_eq_zero
  · obtain ⟨latest, hlatest, hg⟩ := greatest_metadataLatest sortFunc hne
    have hrows : ∀ row ∈ rows, row ≠ [] := fun row hrow => hnonempty row (hperm.mem_iff.1 hrow)
    have hrowsne : rows ≠ [] := fun h => hne (by simpa [h] using hperm.symm)
    have hg' := (greatest_catalogLatest hrows hrowsne).perm hperm
    have hfrag : fragments (catalogLatest rows) = fragments latest := versionCmp_eq_eq.1 (hg'.unique hg)
    refine ⟨latest, hlatest, hg.1, hg'.1, fun v hv => ?_, hfrag, fun hinj => hinj _ hg'.1 _ hg.1 hfrag⟩
    rw [compareVersions_eq, toInt_nonpos]
    exact hg.2 v hv

/-- Merge sort, a sort of this kind. -/
def mergeSort : SortFunc where
  sort versions := versions.mergeSort fun a b => compareVersions a b ≤ 0
  perm versions := List.mergeSort_perm versions _
  sorted versions := by
    have htrans : ∀ a b c : Text, decide (compareVersions a b ≤ 0) = true →
      decide (compareVersions b c ≤ 0) = true → decide (compareVersions a c ≤ 0) = true := by
      intro a b c hab hbc
      rw [decide_eq_true_eq, compareVersions_eq, toInt_nonpos] at hab hbc ⊢
      exact TransCmp.isLE_trans hab hbc
    have htotal : ∀ a b : Text, (decide (compareVersions a b ≤ 0) || decide (compareVersions b a ≤ 0)) = true := by
      intro a b
      rw [Bool.or_eq_true, decide_eq_true_eq, decide_eq_true_eq, compareVersions_eq, compareVersions_eq b,
        @OrientedCmp.eq_swap _ versionCmp, toInt_swap]
      omega
    simpa using List.pairwise_mergeSort htrans htotal versions

theorem catalogLatest_pair {a b : Text} (ha : a ≠ []) (hfrag : fragments b = fragments a) : catalogLatest [a, b] = a := by
  have h0 : compareVersions b a = 0 := compareVersions_eq_zero.2 hfrag
  simp [catalogLatest, ha, h0]

/-- `1.0` and `1-0` have the same fragments. -/
theorem catalogLatest_order :
    [text "1-0", text "1.0"].Perm [text "1.0", text "1-0"] ∧ catalogLatest [text "1.0", text "1-0"] = text "1.0" ∧
      catalogLatest [text "1-0", text "1.0"] = text "1-0" ∧ text "1.0" ≠ text "1-0" :=
  ⟨List.Perm.swap _ _ _, catalogLatest_pair (by decide) (by decide),
    catalogLatest_pair (by decide) (by decide), by decide⟩

/-- Three versions, in two orders. -/
theorem latest_of_three :
    ∃ latest, metadataLatest mergeSort [text "1.9", text "1.10", text "1.2"] = some latest ∧
      catalogLatest [text "1.2", text "1.9", text "1.10"] = latest := by
  obtain ⟨latest, hlatest, -, -, -, -, heq⟩ := (compareVersions_latest mergeSort).2.2.2 [text "1.9", text "1.10",
    text "1.2"] [text "1.2", text "1.9", text "1.10"] (by decide) (by decide) (by decide)
  exact ⟨latest, hlatest, heq (by decide)⟩

end Renop.Version
