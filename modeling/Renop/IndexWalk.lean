import Renop.IndexInv

/-!
# The walk of `removeDescendants` in any index

`IndexRemove` follows the walk in an index whose listings are complete. Here they need not be: what is removed is what the
walk gets to (`Walked`), the listings being what they are. `Tidy` and `Listed` hold after every run on clean paths.
-/

namespace Renop.Index
namespace FileIndex

/-- Strictly below. -/
def Under (d x : String) : Prop := ∃ s, x = d ++ "/" ++ s

def Below (d x : String) : Prop := x = d ∨ Under d x

/-- The paths that the walk below `d` gets to. -/
inductive Walked (idx : FileIndex) : String → String → Prop
  | child {d b : String} : b ∈ idx.children d → Walked idx d (d ++ "/" ++ b)
  | nested {d b x : String} : b ∈ idx.children d → d ++ "/" ++ b ∈ idx.dirs → Walked idx (d ++ "/" ++ b) x →
      Walked idx d x

structure Tidy (idx : FileIndex) : Prop where
  disjoint : ∀ p ∈ idx.files, p ∉ idx.dirs
  clean : ∀ p ∈ idx.dirs, pathClean p = p
  nodup : ∀ p, (idx.children p).Nodup
  special : ∀ p, ¬Ordinary p → idx.children p = []
  base : ∀ p, ∀ b ∈ idx.children p, Base b

/-- What is listed is indexed. -/
def Listed (idx : FileIndex) : Prop := ∀ p b, b ∈ idx.children p → idx.Indexed (p ++ "/" ++ b)

variable {idx idx' idx'' : FileIndex} {d x y : String}

/-! ### Paths below -/

theorem Under.trans {z : String} (h : Under x y) (h' : Under y z) : Under x z := by
  obtain ⟨s, rfl⟩ := h
  obtain ⟨t, rfl⟩ := h'
  exact ⟨s ++ "/" ++ t, by simp only [String.append_assoc]⟩

theorem under_child (d b : String) : Under d (d ++ "/" ++ b) := ⟨b, rfl⟩

theorem Under.length_lt (h : Under d x) : d.toList.length < x.toList.length := by
  obtain ⟨s, rfl⟩ := h
  rw [toList_under]
  simp

theorem not_under_self : ¬Under d d := fun h => Nat.lt_irrefl _ h.length_lt

theorem Under.parent {p b : String} (h : Under d (p ++ "/" ++ b)) (hb : Base b) : p = d ∨ Under d p := by
  obtain ⟨s, hs⟩ := h
  have hl : p.toList ++ '/' :: b.toList = d.toList ++ '/' :: s.toList := by
    rw [← toList_under, ← toList_under, hs]
  have hsplit := splitLast_append p.toList b.toList hb
  rw [hl] at hsplit
  cases hrest : splitLast s.toList with
  | none =>
    rw [splitLast_append _ _ (splitLast_none.1 hrest)] at hsplit
    exact .inl (String.toList_inj.1 (Prod.mk.inj (Option.some.inj hsplit)).1.symm)
  | some q =>
    obtain ⟨heq, hbase⟩ := splitLast_some (p := q.1) (b := q.2) hrest
    have hs' : d.toList ++ '/' :: s.toList = (d.toList ++ '/' :: q.1) ++ '/' :: q.2 := by rw [heq]; simp
    rw [hs', splitLast_append _ _ hbase] at hsplit
    refine .inr ⟨String.ofList q.1, String.toList_inj.1 ?_⟩
    rw [toList_under, String.toList_ofList]
    exact (Prod.mk.inj (Option.some.inj hsplit)).1.symm

theorem below_child {b : String} (hb : Base b) (h : Below (d ++ "/" ++ b) x) :
    ∃ r, x.toList = d.toList ++ '/' :: r ∧ r.takeWhile (fun c => c ≠ '/') = b.toList := by
  have hall : ∀ c ∈ b.toList, decide (c ≠ '/') = true := by
    intro c hc
    refine decide_eq_true ?_
    rintro rfl
    exact hb hc
  rcases h with rfl | ⟨s, rfl⟩
  · refine ⟨b.toList, toList_under _ _, ?_⟩
    have htake : (b.toList ++ []).takeWhile (fun c => c ≠ '/') = b.toList ++ [].takeWhile (fun c => c ≠ '/') :=
      List.takeWhile_append_of_pos hall
    simpa using htake
  · refine ⟨b.toList ++ '/' :: s.toList, ?_, ?_⟩
    · rw [toList_under, toList_under, List.append_assoc, List.cons_append]
    · rw [List.takeWhile_append_of_pos hall]
      simp

theorem below_child_inj {b c : String} (hb : Base b) (hc : Base c) (h : Below (d ++ "/" ++ b) x)
    (h' : Below (d ++ "/" ++ c) x) :
    b = c := by
  obtain ⟨r, hr, hrb⟩ := below_child hb h
  obtain ⟨r', hr', hrc⟩ := below_child hc h'
  have hcancel := List.append_cancel_left (hr.symm.trans hr')
  obtain rfl : r = r' := (List.cons.inj hcancel).2
  exact String.toList_inj.1 (hrb.symm.trans hrc)

/-! ### Where the walk gets to -/

theorem Walked.under (h : idx.Walked d x) : Under d x := by
  induction h with
  | child _ => exact under_child _ _
  | nested _ _ _ ih => exact (under_child _ _).trans ih

theorem Walked.step {b : String} (h : idx.Walked d x) (hx : x ∈ idx.dirs) (hb : b ∈ idx.children x) :
    idx.Walked d (x ++ "/" ++ b) := by
  induction h with
  | child hc => exact .nested hc hx (.child hb)
  | nested hc hd _ ih => exact .nested hc hd (ih hx hb)

/-- On a listing of `d` or of a directory. -/
def Connected (idx : FileIndex) (d x : String) : Prop :=
  ∃ p b, x = p ++ "/" ++ b ∧ b ∈ idx.children p ∧ (p = d ∨ p ∈ idx.dirs)

theorem Walked.last (h : idx.Walked d x) :
    ∃ p b, x = p ++ "/" ++ b ∧ b ∈ idx.children p ∧ (p = d ∨ p ∈ idx.dirs ∧ idx.Walked d p) := by
  induction h with
  | child hb => exact ⟨_, _, rfl, hb, .inl rfl⟩
  | nested hb hd _ ih =>
    rcases ih with ⟨p, c, rfl, hc, rfl | ⟨hp, hw⟩⟩
    · exact ⟨_, c, rfl, hc, .inr ⟨hd, .child hb⟩⟩
    · exact ⟨p, c, rfl, hc, .inr ⟨hp, .nested hb hd hw⟩⟩

theorem Walked.connected (h : idx.Walked d x) : idx.Connected d x := by
  obtain ⟨p, b, hx, hb, hp⟩ := h.last
  exact ⟨p, b, hx, hb, hp.imp_right And.left⟩

theorem walked_iff_connected (ht : Tidy idx) :
    (∀ x, Under d x → idx.Indexed x → idx.Walked d x) ↔ ∀ x, Under d x → idx.Indexed x → idx.Connected d x := by
  constructor
  · exact fun h x hx hi => (h x hx hi).connected
  · intro h x hx hi
    generalize hn : x.toList.length = n
    induction n using Nat.strong_induction_on generalizing x with
    | _ n ih =>
      obtain ⟨p, b, rfl, hb, hp⟩ := h x hx hi
      rcases hp with rfl | hp
      · exact .child hb
      · rcases hx.parent (ht.base p b hb) with rfl | hup
        · exact .child hb
        · have hlt := (under_child p b).length_lt
          exact (ih _ (by omega) p hup (.inr hp) rfl).step hp hb

theorem Walked.of_agree (h : idx.Walked d x) (hc : ∀ p, Below d p → idx'.children p = idx.children p)
    (hd : ∀ p, Under d p → p ∈ idx.dirs → p ∈ idx'.dirs) : idx'.Walked d x := by
  induction h with
  | @child d b hb => exact .child (by rwa [hc d (.inl rfl)])
  | @nested d b x hb hdir _ ih =>
    have hup : ∀ p, Below (d ++ "/" ++ b) p → Under d p := by
      rintro p (rfl | hp)
      · exact under_child d b
      · exact (under_child d b).trans hp
    refine .nested (by rwa [hc d (.inl rfl)]) (hd _ (under_child d b) hdir) (ih (fun p hp => hc p (.inr (hup p hp))) ?_)
    exact fun p hp => hd p (hup p (.inr hp))

/-- What the loop of `removeDescendants` gets to with these children. -/
def WalkedBy (idx : FileIndex) (d : String) (cs : List String) (x : String) : Prop :=
  ∃ c ∈ cs, x = d ++ "/" ++ c ∨ d ++ "/" ++ c ∈ idx.dirs ∧ idx.Walked (d ++ "/" ++ c) x

theorem walked_iff : idx.Walked d x ↔ idx.WalkedBy d (idx.children d) x := by
  constructor
  · intro h
    cases h with
    | child hb => exact ⟨_, hb, .inl rfl⟩
    | nested hb hd h => exact ⟨_, hb, .inr ⟨hd, h⟩⟩
  · rintro ⟨c, hc, rfl | ⟨hd, h⟩⟩
    · exact .child hc
    · exact .nested hc hd h

theorem WalkedBy.below {c : String} (h : idx.WalkedBy d [c] x) : Below (d ++ "/" ++ c) x := by
  obtain ⟨c', hc', h⟩ := h
  obtain rfl := List.mem_singleton.1 hc'
  rcases h with rfl | ⟨-, h⟩
  · exact .inl rfl
  · exact .inr h.under

/-! ### What is removed -/

/-- The paths `W` are removed, and nothing is touched outside `T`. -/
structure Pruned (idx : FileIndex) (W T : String → Prop) (idx' : FileIndex) : Prop where
  removed : ∀ x, W x → x ∉ idx'.files ∧ x ∉ idx'.dirs
  files : ∀ x, ¬W x → idx'.files.lookup x = idx.files.lookup x
  dirs : ∀ x, ¬W x → idx'.dirs.lookup x = idx.dirs.lookup x
  blocked : idx'.blocked = idx.blocked
  sub : ∀ p, (idx'.children p).Sublist (idx.children p)
  unlisted : ∀ p b, W (p ++ "/" ++ b) → idx.Indexed (p ++ "/" ++ b) → b ∉ idx'.children p
  -- a file loses its listing with its path
  listed : ∀ p b, b ∈ idx.children p → p ∉ idx.files → ¬W (p ++ "/" ++ b) → b ∈ idx'.children p
  children : ∀ p, ¬T p → idx'.children p = idx.children p
  notFound : ∀ x, ¬T x → idx'.notFound.lookup x = idx.notFound.lookup x
  notFoundSub : ∀ x ∈ idx'.notFound, x ∈ idx.notFound
  length : idx'.dirs.keys.length ≤ idx.dirs.keys.length

theorem mem_iff_of_lookup {α : Type} {m m' : PathMap α} {p : String} (h : m'.lookup p = m.lookup p) :
    p ∈ m' ↔ p ∈ m := by
  rw [← AList.lookup_isSome, ← AList.lookup_isSome, h]

variable {W W' T T' : String → Prop}

theorem Pruned.refl (idx : FileIndex) : Pruned idx (fun _ => False) T idx :=
  ⟨fun _ h => h.elim, fun _ _ => rfl, fun _ _ => rfl, rfl, fun _ => List.Sublist.refl _, fun _ _ h => h.elim,
    fun _ _ h _ _ => h, fun _ _ => rfl, fun _ _ => rfl, fun _ h => h, Nat.le_refl _⟩

theorem Pruned.mem_files (h : Pruned idx W T idx') (x : String) : x ∈ idx'.files ↔ x ∈ idx.files ∧ ¬W x := by
  by_cases hx : W x
  · simp [hx, (h.removed x hx).1]
  · simp [hx, mem_iff_of_lookup (h.files x hx)]

theorem Pruned.mem_dirs (h : Pruned idx W T idx') (x : String) : x ∈ idx'.dirs ↔ x ∈ idx.dirs ∧ ¬W x := by
  by_cases hx : W x
  · simp [hx, (h.removed x hx).2]
  · simp [hx, mem_iff_of_lookup (h.dirs x hx)]

theorem Pruned.indexed (h : Pruned idx W T idx') (x : String) : idx'.Indexed x ↔ idx.Indexed x ∧ ¬W x := by
  unfold Indexed
  rw [h.mem_files, h.mem_dirs]
  tauto

theorem Pruned.mono (h : Pruned idx W T idx') (hT : ∀ x, T x → T' x) : Pruned idx W T' idx' :=
  ⟨h.removed, h.files, h.dirs, h.blocked, h.sub, h.unlisted, h.listed, fun p hp => h.children p fun ht => hp (hT p ht),
    fun x hx => h.notFound x fun ht => hx (hT x ht), h.notFoundSub, h.length⟩

theorem Pruned.congr (h : Pruned idx W T idx') (hW : ∀ x, W x ↔ W' x) : Pruned idx W' T idx' := by
  have : W = W' := funext fun x => propext (hW x)
  rwa [← this]

theorem Pruned.trans (h : Pruned idx W T idx') (h' : Pruned idx' W' T idx'') :
    Pruned idx (fun x => W x ∨ W' x) T idx'' := by
  refine ⟨fun x hx => ?_, fun x hx => ?_, fun x hx => ?_, h'.blocked.trans h.blocked, fun p => (h'.sub p).trans (h.sub p),
    fun p b hW hi => ?_, fun p b hb hp hW => ?_, fun p hp => (h'.children p hp).trans (h.children p hp),
    fun x hx => (h'.notFound x hx).trans (h.notFound x hx), fun x hx => h.notFoundSub x (h'.notFoundSub x hx),
    Nat.le_trans h'.length h.length⟩
  · rw [h'.mem_files, h'.mem_dirs, h.mem_files, h.mem_dirs]
    tauto
  · rw [not_or] at hx
    exact (h'.files x hx.2).trans (h.files x hx.1)
  · rw [not_or] at hx
    exact (h'.dirs x hx.2).trans (h.dirs x hx.1)
  · by_cases hfirst : W (p ++ "/" ++ b)
    · exact fun hb => h.unlisted p b hfirst hi ((h'.sub p).subset hb)
    · exact h'.unlisted p b (hW.resolve_left hfirst) ((h.indexed _).2 ⟨hi, hfirst⟩)
  · rw [not_or] at hW
    exact h'.listed p b (h.listed p b hb hp hW.1) (fun hf => hp ((h.mem_files p).1 hf).1) hW.2

theorem Tidy.pruned (ht : Tidy idx) (h : Pruned idx W T idx') : Tidy idx' := by
  refine ⟨fun p hp hd => ?_, fun p hp => ht.clean p ((h.mem_dirs p).1 hp).1, fun p => (ht.nodup p).sublist (h.sub p),
    fun p hp => ?_, fun p b hb => ht.base p b ((h.sub p).subset hb)⟩
  · exact ht.disjoint p ((h.mem_files p).1 hp).1 ((h.mem_dirs p).1 hd).1
  · have := h.sub p
    rw [ht.special p hp] at this
    exact List.sublist_nil.1 this

theorem Listed.pruned (hl : Listed idx) (h : Pruned idx W T idx') : Listed idx' := by
  intro p b hb
  have hi := hl p b ((h.sub p).subset hb)
  refine (h.indexed _).2 ⟨hi, fun hW => h.unlisted p b hW hi hb⟩

/-! ### Single updates -/

theorem children_removeChild (idx : FileIndex) (x p : String) :
    (idx.removeChild x).children p =
      if p = x then []
      else if p = (splitPathParentBase x).1 then (idx.children p).erase (splitPathParentBase x).2
      else idx.children p := by
  unfold removeChild
  rcases splitPathParentBase x with ⟨parent, base⟩
  simp only [Function.update_apply]
  split_ifs with h1 h2
  · rfl
  · rw [h2]
  · rfl

theorem clearNotFound_frame (idx : FileIndex) (x : String) :
    (idx.clearNotFound x).files = idx.files ∧ (idx.clearNotFound x).dirs = idx.dirs ∧
      (idx.clearNotFound x).blocked = idx.blocked ∧ (idx.clearNotFound x).children = idx.children := by
  unfold clearNotFound
  split_ifs <;> exact ⟨rfl, rfl, rfl, rfl⟩

theorem pruned_clearNotFound (idx : FileIndex) (x : String) : Pruned idx (fun _ => False) (· = x) (idx.clearNotFound x) := by
  unfold clearNotFound
  split_ifs with hx
  · refine ⟨fun _ h => h.elim, fun _ _ => rfl, fun _ _ => rfl, rfl, fun _ => List.Sublist.refl _, fun _ _ h => h.elim,
      fun _ _ h _ _ => h, fun _ _ => rfl, fun y hy => AList.lookup_erase_ne hy, fun y hy => (AList.mem_erase.1 hy).2,
        Nat.le_refl _⟩
  · exact .refl idx

theorem not_mem_clearNotFound (idx : FileIndex) (x : String) : x ∉ (idx.clearNotFound x).notFound := by
  unfold clearNotFound
  split_ifs with hx
  · exact fun h => (AList.mem_erase.1 h).1 rfl
  · exact hx

theorem isPrefixOf_iff_under : (d ++ "/").toList.isPrefixOf x.toList = true ↔ Under d x := by
  rw [List.isPrefixOf_iff_prefix]
  constructor
  · rintro ⟨s, hs⟩
    refine ⟨String.ofList s, String.toList_inj.1 ?_⟩
    rw [toList_under, String.toList_ofList, ← hs]
    simp
  · rintro ⟨s, rfl⟩
    refine ⟨s.toList, ?_⟩
    rw [toList_under]
    simp

theorem pruned_clearNotFoundBelow (idx : FileIndex) (d : String) :
    Pruned idx (fun _ => False) (Below d) (idx.clearNotFoundBelow d) ∧ ∀ x, Below d x →
      x ∉ (idx.clearNotFoundBelow d).notFound := by
  have hloop : ∀ (ks : List String) (idx : FileIndex),
      let idx' := ks.foldl (fun idx k => if k = d ∨ (d ++ "/").toList.isPrefixOf k.toList then clearNotFound idx k else idx)
        idx
      Pruned idx (fun _ => False) (Below d) idx' ∧ ∀ x ∈ ks, Below d x → x ∉ idx'.notFound := by
    intro ks
    induction ks with
    | nil => exact fun idx => ⟨.refl idx, fun x hx => absurd hx List.not_mem_nil⟩
    | cons k ks ih =>
      intro idx
      have hbelow : (k = d ∨ (d ++ "/").toList.isPrefixOf k.toList = true) ↔ Below d k :=
        or_congr_right isPrefixOf_iff_under
      rw [List.foldl_cons]
      split_ifs with hk
      · rw [hbelow] at hk
        obtain ⟨h1, h2⟩ := ih (idx.clearNotFound k)
        have h0 : Pruned idx (fun _ => False) (Below d) (idx.clearNotFound k) :=
          (pruned_clearNotFound idx k).mono fun x hx => by rwa [hx]
        refine ⟨(h0.trans h1).congr fun _ => or_self_iff, fun x hx hb => ?_⟩
        rcases List.mem_cons.1 hx with rfl | hx
        · exact fun hm => not_mem_clearNotFound idx x (h1.notFoundSub x hm)
        · exact h2 x hx hb
      · obtain ⟨h1, h2⟩ := ih idx
        refine ⟨h1, fun x hx hb => ?_⟩
        rcases List.mem_cons.1 hx with rfl | hx
        · exact absurd (hbelow.2 hb) hk
        · exact h2 x hx hb
  obtain ⟨h1, h2⟩ := hloop idx.notFound.keys idx
  refine ⟨h1, fun x hx hm => ?_⟩
  exact h2 x (AList.mem_keys.1 (h1.notFoundSub x hm)) hx hm

theorem removeChild_sublist (idx : FileIndex) (x p : String) : ((idx.removeChild x).children p).Sublist (idx.children p) := by
  rw [children_removeChild]
  split_ifs with h1 h2
  · exact List.nil_sublist _
  · exact List.erase_sublist
  · exact List.Sublist.refl _

theorem Tidy.ordinary (ht : Tidy idx) {p b : String} (hb : b ∈ idx.children p) : Ordinary p := by
  by_contra hp
  rw [ht.special p hp] at hb
  exact List.not_mem_nil hb

theorem Tidy.removeChild_unlisted (ht : Tidy idx) {p b : String} : b ∉ (idx.removeChild (p ++ "/" ++ b)).children p := by
  intro hb
  have hold := (removeChild_sublist idx _ p).subset hb
  rw [children_removeChild, split_under (ht.ordinary hold).1 (ht.base p b hold)] at hb
  split_ifs at hb
  · exact List.not_mem_nil hb
  · exact ((ht.nodup p).mem_erase_iff.1 hb).1 rfl
  · contradiction

theorem Tidy.mem_removeChild (ht : Tidy idx) {p b : String} :
    b ∈ (idx.removeChild x).children p ↔ b ∈ idx.children p ∧ p ≠ x ∧ p ++ "/" ++ b ≠ x := by
  constructor
  · intro hb
    have hold := (removeChild_sublist idx x p).subset hb
    refine ⟨hold, ?_, ?_⟩
    · rintro rfl
      rw [children_removeChild, if_pos rfl] at hb
      exact List.not_mem_nil hb
    · rintro rfl
      exact ht.removeChild_unlisted hb
  · rintro ⟨hb, hpx, hne⟩
    rw [children_removeChild, if_neg hpx]
    split_ifs with hpar
    · refine (ht.nodup p).mem_erase_iff.2 ⟨?_, hb⟩
      rintro rfl
      refine hne (under_split (p := p) (b := (splitPathParentBase x).2) ?_ (ht.ordinary hb)).1.symm
      rw [hpar]
    · exact hb

theorem pruned_deleteFile (ht : Tidy idx) (hx : x ∈ idx.files) :
    Pruned idx (· = x) (fun p => p = x ∨ p = (splitPathParentBase x).1) (idx.deleteFile x) := by
  obtain ⟨old, hold⟩ := Option.isSome_iff_exists.1 (AList.lookup_isSome.2 hx)
  unfold FileIndex.deleteFile
  rw [hold]
  dsimp only
  set idx₁ : FileIndex := { idx with
    files := idx.files.erase x
    filesCount := idx.filesCount - 1
    totalBytes := if old.size ≠ 0 then idx.totalBytes - old.size else idx.totalBytes } with hidx₁
  have ht₁ : Tidy idx₁ := ⟨fun p hp => ht.disjoint p (AList.mem_erase.1 hp).2, ht.clean, ht.nodup, ht.special,
    ht.base⟩
  refine ⟨?_, fun y hy => AList.lookup_erase_ne hy, fun _ _ => rfl, rfl, removeChild_sublist idx₁ x, ?_,
    fun p b hb hp hne => ht₁.mem_removeChild.2 ⟨hb, ?_, hne⟩, fun p hp => ?_, fun _ _ => rfl, fun _ h => h,
      Nat.le_refl _⟩
  · rintro y rfl
    exact ⟨fun h => (AList.mem_erase.1 h).1 rfl, ht.disjoint y hx⟩
  · rintro p b rfl -
    exact ht₁.removeChild_unlisted
  · rintro rfl
    exact hp hx
  · rw [not_or] at hp
    rw [children_removeChild, if_neg hp.1, if_neg hp.2]

/-! ### The walk -/

/-- What `removeDescendants` does to an index with fewer than `n` directories. -/
def Prunes (n : Nat) (nested : FileIndex → String → FileIndex) : Prop :=
  ∀ idx d, Tidy idx → pathClean d = d → idx.dirs.keys.length < n →
    Pruned idx (idx.Walked d) (Below d) (nested idx d) ∧ ∀ x, Below d x → x ∉ (nested idx d).notFound

def withoutDir (idx : FileIndex) (x : String) (count : Int) :
    FileIndex := { idx with dirs := idx.dirs.erase x, dirsCount := count }

theorem withoutDir_length (count : Int) (hx : x ∈ idx.dirs) :
    (idx.withoutDir x count).dirs.keys.length + 1 = idx.dirs.keys.length := by
  have hlen : (((idx.withoutDir x count).dirs.keys.length : Nat) : Int) = idx.dirs.keys.length - 1 := length_erase hx
  omega

theorem Tidy.withoutDir (ht : Tidy idx) (x : String) (count : Int) : Tidy (idx.withoutDir x count) := by
  have hmem : ∀ p ∈ (idx.withoutDir x count).dirs, p ∈ idx.dirs := fun p hp => (AList.mem_erase.1 hp).2
  exact ⟨fun p hp hd => ht.disjoint p hp (hmem p hd), fun p hp => ht.clean p (hmem p hp), ht.nodup, ht.special, ht.base⟩

/-- A directory goes: first it, then what is below it, then its name. -/
theorem pruned_directory (ht : Tidy idx) (hx : x ∈ idx.dirs) {count : Int}
    (h : Pruned (idx.withoutDir x count) ((idx.withoutDir x count).Walked x) (Below x) idx') :
    Pruned idx (fun y => y = x ∨ idx.Walked x y) (fun p => p = (splitPathParentBase x).1 ∨ Below x p)
      (idx'.removeChild x) := by
  have hmem : ∀ p, p ∈ (idx.withoutDir x count).dirs ↔ p ≠ x ∧ p ∈ idx.dirs := fun p => AList.mem_erase
  have ht₁ := ht.withoutDir x count
  have hwalked : ∀ y, (idx.withoutDir x count).Walked x y ↔ idx.Walked x y := by
    refine fun y => ⟨fun hw => hw.of_agree (fun _ _ => rfl) fun p _ hd => ((hmem p).1 hd).2, fun hw => ?_⟩
    refine hw.of_agree (fun _ _ => rfl) fun p hp hd => (hmem p).2 ⟨?_, hd⟩
    rintro rfl
    exact not_under_self hp
  have h := h.congr hwalked
  have hindexed : ∀ y, y ≠ x → idx.Indexed y → (idx.withoutDir x count).Indexed y := fun y hy =>
    Or.imp_right fun hd => (hmem y).2 ⟨hy, hd⟩
  refine ⟨?_, fun y hy => ?_, fun y hy => ?_, h.blocked, fun p => (removeChild_sublist _ x p).trans (h.sub p), ?_,
    fun p b hb hp hW => ?_, fun p hp => ?_, fun y hy => h.notFound y fun hb => hy (.inr hb), h.notFoundSub, ?_⟩
  · rintro y (rfl | hy)
    · refine ⟨fun hf => ?_, fun hd => ?_⟩
      · exact ht.disjoint y ((h.mem_files y).1 hf).1 hx
      · exact ((hmem y).1 ((h.mem_dirs y).1 hd).1).1 rfl
    · exact h.removed y hy
  · rw [not_or] at hy
    exact h.files y hy.2
  · rw [not_or] at hy
    exact (h.dirs y hy.2).trans (AList.lookup_erase_ne hy.1)
  · rintro p b (rfl | hw) hi
    · exact (ht₁.pruned h).removeChild_unlisted
    · refine fun hb => h.unlisted p b hw (hindexed _ ?_ hi) ((removeChild_sublist _ x p).subset hb)
      rintro rfl
      exact not_under_self hw.under
  · rw [not_or] at hW
    refine (ht₁.pruned h).mem_removeChild.2 ⟨h.listed p b hb hp hW.2, ?_, hW.1⟩
    rintro rfl
    exact hW.2 (.child hb)
  · rw [not_or] at hp
    rw [children_removeChild, if_neg fun hpx => hp.2 (.inl hpx), if_neg hp.1]
    exact h.children p hp.2
  · have hle := h.length
    have hlen := withoutDir_length count hx
    show idx'.dirs.keys.length ≤ idx.dirs.keys.length
    omega

theorem pruned_removeDescendant {n : Nat} {nested : FileIndex → String → FileIndex} (hnested : Prunes n nested)
    (ht : Tidy idx) (hd : Ordinary d) (hn : idx.dirs.keys.length < n + 1) {c : String} (hc : Base c) :
    Pruned idx (idx.WalkedBy d [c]) (fun p => p = d ∨ Below (d ++ "/" ++ c) p) (removeDescendant nested d idx c) := by
  have hsplit : (splitPathParentBase (d ++ "/" ++ c)).1 = d := by rw [split_under hd.1 hc]
  have hby : ∀ x, idx.WalkedBy d [c] x ↔ x = d ++ "/" ++ c ∨ d ++ "/" ++ c ∈ idx.dirs ∧
      idx.Walked (d ++ "/" ++ c) x := by
    intro x
    constructor
    · rintro ⟨c', hc', h⟩
      rwa [List.mem_singleton.1 hc'] at h
    · exact fun h => ⟨c, List.mem_singleton.2 rfl, h⟩
  have hclear : ∀ idx', Pruned idx' (fun _ => False) (fun p => p = d ∨ Below (d ++ "/" ++ c) p)
      (idx'.clearNotFound (d ++ "/" ++ c)) := fun idx' => (pruned_clearNotFound idx' _).mono fun x hx => .inr (.inl hx)
  have hfin : ∀ {W : String → Prop} {idx' : FileIndex}, Pruned idx W (fun p => p = d ∨ Below (d ++ "/" ++ c) p) idx' →
      (∀ x, W x ↔ idx.WalkedBy d [c] x) →
      Pruned idx (idx.WalkedBy d [c]) (fun p => p = d ∨ Below (d ++ "/" ++ c) p) (idx'.clearNotFound (d ++ "/" ++ c)) := by
    intro W idx' h hW
    refine (h.trans (hclear idx')).congr fun x => ?_
    rw [or_false, hW]
  unfold removeDescendant
  dsimp only
  by_cases hfile : d ++ "/" ++ c ∈ idx.files
  · have hnot := ht.disjoint _ hfile
    have h := pruned_deleteFile ht hfile
    rw [hsplit] at h
    rw [if_neg fun hm => hnot ((h.mem_dirs _).1 hm).1]
    refine hfin (h.mono fun x hx => hx.symm.imp_right .inl) fun x => ?_
    rw [hby]
    simp [hnot]
  · rw [deleteFile_of_notMem hfile]
    split_ifs with hdir
    · have hlen := withoutDir_length (idx.dirsCount - 1) hdir
      have hlt : (idx.deleteDir (d ++ "/" ++ c)).dirs.keys.length < n := by
        show (idx.withoutDir (d ++ "/" ++ c) (idx.dirsCount - 1)).dirs.keys.length < n
        omega
      have h := pruned_directory ht hdir (hnested (idx.deleteDir _) _ (ht.withoutDir _ _) (ht.clean _ hdir) hlt).1
      rw [hsplit] at h
      refine hfin h fun x => ?_
      rw [hby]
      simp [hdir]
    · -- nothing is indexed there
      refine hfin (W := (· = d ++ "/" ++ c)) ⟨?_, fun _ _ => rfl, fun _ _ => rfl, rfl, fun _ => List.Sublist.refl _, ?_,
        fun _ _ h _ _ => h, fun _ _ => rfl, fun _ _ => rfl, fun _ h => h, Nat.le_refl _⟩ fun x => ?_
      · rintro x rfl
        exact ⟨hfile, hdir⟩
      · rintro p b heq hi
        rw [heq] at hi
        exact absurd hi (not_or.2 ⟨hfile, hdir⟩)
      · rw [hby]
        simp [hdir]

theorem pruned_loop {n : Nat} {nested : FileIndex → String → FileIndex} (hnested : Prunes n nested) (ht : Tidy idx)
    (hd : Ordinary d) (hn : idx.dirs.keys.length < n + 1) (cs : List String) (hcs : ∀ c ∈ cs, Base c)
    (hnodup : cs.Nodup) :
    Pruned idx (idx.WalkedBy d cs) (Below d) (cs.foldl (removeDescendant nested d) idx) := by
  induction cs generalizing idx with
  | nil =>
    refine (Pruned.refl idx).congr fun x => ⟨fun h => h.elim, ?_⟩
    rintro ⟨c, hc, -⟩
    exact absurd hc List.not_mem_nil
  | cons c cs ih =>
    rw [List.nodup_cons] at hnodup
    have hc := hcs c (List.mem_cons_self ..)
    have h := pruned_removeDescendant hnested ht hd hn hc
    have h' := ih (ht.pruned h) (Nat.lt_of_le_of_lt h.length hn) (fun c' hc' => hcs c' (List.mem_cons_of_mem _ hc')) hnodup.2
    have hT : ∀ x, x = d ∨ Below (d ++ "/" ++ c) x → Below d x := by
      rintro x (rfl | rfl | hx)
      exacts [.inl rfl, .inr (under_child d c), .inr ((under_child d c).trans hx)]
    -- what is below the other children is as it was
    have hkeep : ∀ c' ∈ cs, ∀ x, Below (d ++ "/" ++ c') x → ¬(x = d ∨ Below (d ++ "/" ++ c) x) := by
      rintro c' hc' x hx (rfl | hx')
      · rcases hx with hx | hx
        · have hlt := (under_child x c').length_lt
          rw [← hx] at hlt
          exact Nat.lt_irrefl _ hlt
        · exact not_under_self ((under_child x c').trans hx)
      · obtain rfl := below_child_inj (hcs c' (List.mem_cons_of_mem _ hc')) hc hx hx'
        exact hnodup.1 hc'
    have hdirs : ∀ c' ∈ cs, ∀ x, Below (d ++ "/" ++ c') x →
        (x ∈ (removeDescendant nested d idx c).dirs ↔ x ∈ idx.dirs) := by
      intro c' hc' x hx
      rw [h.mem_dirs, and_iff_left_iff_imp]
      exact fun _ hw => hkeep c' hc' x hx (.inr hw.below)
    have hsame : ∀ x, (removeDescendant nested d idx c).WalkedBy d cs x ↔ idx.WalkedBy d cs x := by
      intro x
      refine exists_congr fun c' => and_congr_right fun hc' => or_congr_right ?_
      rw [hdirs c' hc' _ (.inl rfl)]
      refine and_congr_right fun _ => ⟨fun hw => ?_, fun hw => ?_⟩
      · exact hw.of_agree (fun p hp => (h.children p (hkeep c' hc' p hp)).symm) fun p hp => (hdirs c' hc' p (.inr hp)).1
      · exact hw.of_agree (fun p hp => h.children p (hkeep c' hc' p hp)) fun p hp => (hdirs c' hc' p (.inr hp)).2
    refine ((h.mono hT).trans (h'.congr hsame)).congr fun x => ?_
    simp [WalkedBy, or_and_right, exists_or]

theorem removeDescendantsFuel_prunes (n : Nat) : Prunes n (removeDescendantsFuel n) := by
  induction n with
  | zero => exact fun idx d _ _ hn => absurd hn (Nat.not_lt_zero _)
  | succ n ih =>
    intro idx d ht hclean hn
    have hfuel : removeDescendantsFuel (n + 1) idx d =
        clearNotFoundBelow ((idx.children d).foldl (removeDescendant (removeDescendantsFuel n) d) idx) d := by
      simp only [removeDescendantsFuel, hclean]
    have hloop : Pruned idx (idx.WalkedBy d (idx.children d)) (Below d)
        ((idx.children d).foldl (removeDescendant (removeDescendantsFuel n) d) idx) := by
      by_cases hd : Ordinary d
      · exact pruned_loop ih ht hd hn _ (ht.base d) (ht.nodup d)
      · rw [ht.special d hd]
        refine (Pruned.refl idx).congr fun x => ⟨fun h => h.elim, ?_⟩
        rintro ⟨c, hc, -⟩
        exact absurd hc List.not_mem_nil
    obtain ⟨hclear, hnone⟩ := pruned_clearNotFoundBelow
      ((idx.children d).foldl (removeDescendant (removeDescendantsFuel n) d) idx) d
    rw [hfuel]
    refine ⟨(hloop.trans hclear).congr fun x => ?_, hnone⟩
    rw [or_false, walked_iff]

theorem removeDescendants_prunes (ht : Tidy idx) (hclean : pathClean d = d) :
    Pruned idx (idx.Walked d) (Below d) (idx.removeDescendants d) ∧ ∀ x, Below d x →
      x ∉ (idx.removeDescendants d).notFound :=
  removeDescendantsFuel_prunes _ idx d ht hclean (Nat.lt_succ_self _)

end FileIndex
end Renop.Index
