import Mathlib.Data.List.Basic
import Renop.Index

/-!
# Clean paths

`path.Clean` keeps a plain segment as it is, so under one root two paths of plain segments are the same file only if they have
the same segments. A segment with a slash or a parent reference may lead anywhere.
-/

namespace Renop.Index

/-- A segment that `path.Clean` keeps. -/
def Plain (seg : List Char) : Prop := seg ∉ [[], ['.'], ['.', '.']] ∧ '/' ∉ seg

instance (seg : List Char) : Decidable (Plain seg) := inferInstanceAs (Decidable (_ ∧ _))

/-- The segments of a path in reverse, below those of `acc`. -/
def cleanSegments (rooted : Bool) (acc : List (List Char)) (p : List Char) : List (List Char) :=
  (p.splitOn '/').foldl (cleanSegment rooted) acc

/-- A clean path of these segments. -/
def render (rooted : Bool) (segs : List (List Char)) : List Char :=
  let body := List.intercalate ['/'] segs.reverse
  if rooted then '/' :: body else if body = [] then ['.'] else body

/-- A path under `root`. -/
def under (root : String) (segs : List (List Char)) : String :=
  pathClean (root ++ "/" ++ String.ofList (List.intercalate ['/'] segs))

section Segments
variable {rooted : Bool} {acc : List (List Char)}

theorem cleanSegment_plain {seg : List Char} (h : Plain seg) : cleanSegment rooted acc seg = seg :: acc := by
  obtain ⟨hseg, -⟩ := h
  simp only [List.mem_cons, List.not_mem_nil, or_false, not_or] at hseg
  unfold cleanSegment
  rw [if_neg (by simp [hseg.1, hseg.2.1]), if_neg hseg.2.2]

theorem foldl_cleanSegment_plain {segs : List (List Char)} (h : ∀ seg ∈ segs, Plain seg) :
    segs.foldl (cleanSegment rooted) acc = segs.reverse ++ acc := by
  induction segs generalizing acc with
  | nil => rfl
  | cons seg segs ih =>
    rw [List.foldl_cons, cleanSegment_plain (h seg (by simp)), ih fun s hs => h s (by simp [hs])]
    simp

/-- No segment is empty, and none has a slash. -/
def Segments (segs : List (List Char)) : Prop := ∀ seg ∈ segs, seg ≠ [] ∧ '/' ∉ seg

theorem Plain.segment {seg : List Char} (h : Plain seg) : seg ≠ [] ∧ '/' ∉ seg :=
  ⟨fun hnil => h.1 (by simp [hnil]), h.2⟩

theorem cleanSegment_segments (hacc : Segments acc) {seg : List Char} (hseg : '/' ∉ seg) :
    Segments (cleanSegment rooted acc seg) := by
  have hcons : seg ≠ [] → Segments (seg :: acc) := by
    intro hne s hs
    rcases List.mem_cons.1 hs with rfl | hs
    · exact ⟨hne, hseg⟩
    · exact hacc s hs
  unfold cleanSegment
  split
  · exact hacc
  · rename_i hplain
    have hne : seg ≠ [] := fun hnil => hplain (.inl hnil)
    split
    · split
      · split
        · exact fun s hs => absurd hs List.not_mem_nil
        · intro s hs
          rw [List.mem_singleton.1 hs]
          exact ⟨hne, hseg⟩
      · split
        · exact hcons hne
        · exact fun s hs => hacc s (List.mem_cons_of_mem _ hs)
    · exact hcons hne

theorem foldl_cleanSegment_segments {l : List (List Char)} (hl : ∀ seg ∈ l, '/' ∉ seg) (hacc : Segments acc) :
    Segments (l.foldl (cleanSegment rooted) acc) := by
  induction l generalizing acc with
  | nil => exact hacc
  | cons seg l ih => exact ih (fun s hs => hl s (by simp [hs])) (cleanSegment_segments hacc (hl seg (by simp)))

theorem not_mem_splitOn {α : Type} [BEq α] [LawfulBEq α] {x : α} (p : List α) : ∀ seg ∈ p.splitOn x, x ∉ seg := by
  induction p with
  | nil => simp
  | cons c p ih =>
    rw [List.splitOn_cons_eq_if_modifyHead]
    split
    · intro seg hseg
      rcases List.mem_cons.1 hseg with rfl | hseg
      · exact List.not_mem_nil
      · exact ih seg hseg
    · rename_i hc
      cases hp : p.splitOn x with
      | nil => simp
      | cons head tail =>
        rw [hp] at ih
        intro seg hseg
        rcases List.mem_cons.1 hseg with rfl | hseg
        · intro hmem
          rcases List.mem_cons.1 hmem with rfl | hmem
          · exact hc (beq_self_eq_true _)
          · exact ih head (by simp) hmem
        · exact ih seg (by simp [hseg])

theorem cleanSegments_append (p q : List Char) :
    cleanSegments rooted acc (p ++ '/' :: q) = cleanSegments rooted (cleanSegments rooted acc p) q := by
  unfold cleanSegments
  rw [List.splitOn_append_cons_self, List.foldl_append]

theorem cleanSegments_segments (p : List Char) (hacc : Segments acc) : Segments (cleanSegments rooted acc p) :=
  foldl_cleanSegment_segments (not_mem_splitOn p) hacc

theorem cleanSegments_plain {segs : List (List Char)} (h : ∀ seg ∈ segs, Plain seg) (hne : segs ≠ []) :
    cleanSegments rooted acc (List.intercalate ['/'] segs) = segs.reverse ++ acc := by
  unfold cleanSegments
  rw [List.splitOn_intercalate '/' (fun seg hseg => (h seg hseg).2) hne, foldl_cleanSegment_plain h]

theorem intercalate_ne_nil {segs : List (List Char)} (h : Segments segs) (hne : segs ≠ []) :
    List.intercalate ['/'] segs ≠ [] := by
  intro hnil
  have hsplit := List.splitOn_intercalate '/' (fun seg hseg => (h seg hseg).2) hne
  rw [hnil] at hsplit
  have hempty : ([] : List Char) ∈ segs := by
    rw [← hsplit]
    simp
  exact (h [] hempty).1 rfl

theorem render_injective {segs segs' : List (List Char)} (h : Segments segs) (h' : Segments segs') (hne : segs ≠ [])
    (hne' : segs' ≠ []) (heq : render rooted segs = render rooted segs') : segs = segs' := by
  have hrev : ∀ {l : List (List Char)}, Segments l → Segments l.reverse := fun hl seg hseg =>
    hl seg (List.mem_reverse.1 hseg)
  have hne₁ : segs.reverse ≠ [] := by simpa using hne
  have hne₂ : segs'.reverse ≠ [] := by simpa using hne'
  unfold render at heq
  dsimp only at heq
  rw [if_neg (intercalate_ne_nil (hrev h) hne₁), if_neg (intercalate_ne_nil (hrev h') hne₂)] at heq
  have hbody : List.intercalate ['/'] segs.reverse = List.intercalate ['/'] segs'.reverse := by
    split at heq
    · exact (List.cons.inj heq).2
    · exact heq
  have hsplit := congrArg (List.splitOn '/') hbody
  rw [List.splitOn_intercalate '/' (fun seg hseg => (hrev h seg hseg).2) hne₁,
    List.splitOn_intercalate '/' (fun seg hseg => (hrev h' seg hseg).2) hne₂] at hsplit
  exact List.reverse_injective hsplit

end Segments

theorem intercalate_concat {segs : List (List Char)} (hne : segs ≠ []) (seg : List Char) :
    List.intercalate ['/'] (segs ++ [seg]) = List.intercalate ['/'] segs ++ '/' :: seg := by
  induction segs with
  | nil => exact absurd rfl hne
  | cons s segs ih =>
    cases segs with
    | nil => simp
    | cons s' segs =>
      rw [List.cons_append, List.cons_append, List.intercalate_cons_cons, List.intercalate_cons_cons,
        ← List.cons_append, ih (List.cons_ne_nil _ _)]
      simp only [List.append_assoc]

/-! ### Paths under a root -/

section Under
variable {root : String} {segs segs' : List (List Char)}

/-- A path under the root is rooted, or starts as the root does. -/
def rootIsRooted (root : String) : Bool := (root.toList ++ ['/']).head? == some '/'

theorem under_eq (h : ∀ seg ∈ segs, Plain seg) (hne : segs ≠ []) :
    under root segs =
      String.ofList (render (rootIsRooted root) (segs.reverse ++ cleanSegments (rootIsRooted root) [] root.toList)) := by
  have hlist : (root ++ "/" ++ String.ofList (List.intercalate ['/'] segs)).toList = root.toList ++ '/' :: List.intercalate
      ['/'] segs := by
    simp
  have hhead : ((root ++ "/" ++ String.ofList (List.intercalate ['/'] segs)).toList.head? == some '/') = rootIsRooted
      root := by
    rw [hlist]
    unfold rootIsRooted
    cases root.toList <;> rfl
  have hsegs : cleanSegments (rootIsRooted root) [] (root ++ "/" ++ String.ofList (List.intercalate ['/'] segs)).toList =
      segs.reverse ++ cleanSegments (rootIsRooted root) [] root.toList := by
    rw [hlist, cleanSegments_append, cleanSegments_plain h hne]
  unfold under pathClean render
  dsimp only
  rw [hhead]
  unfold cleanSegments at hsegs
  rw [hsegs]
  rfl

theorem under_segments (h : ∀ seg ∈ segs, Plain seg) :
    Segments (segs.reverse ++ cleanSegments (rootIsRooted root) [] root.toList) := by
  intro seg hseg
  rcases List.mem_append.1 hseg with hseg | hseg
  · exact (h seg (List.mem_reverse.1 hseg)).segment
  · exact cleanSegments_segments root.toList (fun s hs => absurd hs List.not_mem_nil) seg hseg

theorem under_injective (h : ∀ seg ∈ segs, Plain seg) (h' : ∀ seg ∈ segs', Plain seg) (hne : segs ≠ [])
    (hne' : segs' ≠ []) (heq : under root segs = under root segs') : segs = segs' := by
  rw [under_eq h hne, under_eq h' hne'] at heq
  have hrender := String.ofList_injective heq
  have := render_injective (under_segments h) (under_segments h') (by simp [hne]) (by simp [hne']) hrender
  exact List.reverse_injective (List.append_cancel_right this)

end Under

end Renop.Index
