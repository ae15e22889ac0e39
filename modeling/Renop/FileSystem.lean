import Mathlib.Data.List.Basic

/-!
# Files that are open

A name stands for a file, and a program that has opened the file keeps it, whatever happens to the name: it may be given to
another file or taken away. So two programs may write to one file, and a file that is moved is still written by those who
opened it under its old name.
-/

namespace FileSystem

/-- Names, and files in order of their creation. -/
structure FS (P B : Type) where
  names : P → Option Nat
  content : Nat → List B
  /-- The name that a file was created with. -/
  birth : Nat → P
  next : Nat

namespace FS
variable {P B : Type} [DecidableEq P] (fs : FS P B)

/-- `O_CREATE` of a name that is free. -/
def create (p : P) : FS P B where
  names q := if q = p then some fs.next else fs.names q
  content h := if h = fs.next then [] else fs.content h
  birth h := if h = fs.next then p else fs.birth h
  next := fs.next + 1

/-- `open` with `O_CREATE`. -/
def openCreate (p : P) : Nat × FS P B :=
  match fs.names p with
  | some h => (h, fs)
  | none => (fs.next, fs.create p)

/-- What a file of this content is after `pwrite`; a gap is filled up. -/
def patched (zero : B) (old : List B) (off : Nat) (data : List B) : List B :=
  (old ++ List.replicate (off - old.length) zero).take off ++ data ++ old.drop (off + data.length)

/-- `pwrite` -/
def writeAt (zero : B) (h off : Nat) (data : List B) : FS P B :=
  { fs with content := fun k => if k = h then patched zero (fs.content h) off data else fs.content k }

/-- `rename`, of a name that there is. -/
def rename (p q : P) : FS P B :=
  { fs with names := fun r => if r = q then fs.names p else if r = p then none else fs.names r }

/-- `unlink` -/
def remove (p : P) : FS P B := { fs with names := fun r => if r = p then none else fs.names r }

/-- Names stand for files that there are, each under the name of its birth where `home` says so. -/
structure Sound (home : P → Prop) : Prop where
  known : ∀ p h, fs.names p = some h → h < fs.next
  born : ∀ p h, home p → fs.names p = some h → fs.birth h = p

/-- No file has two names. -/
def Single : Prop := ∀ p q h, fs.names p = some h → fs.names q = some h → p = q

/-- What a program that owns the name `p` sees of it. -/
structure SameAt (p : P) (fs fs' : FS P B) : Prop where
  name : fs'.names p = fs.names p
  content : ∀ h, h < fs.next → fs.birth h = p → fs'.content h = fs.content h
  birth : ∀ h, h < fs.next → fs'.birth h = fs.birth h
  next : fs.next ≤ fs'.next

section Lemmas
variable {fs} {fs' fs'' : FS P B} {home : P → Prop} {p q : P} {zero : B} {h off : Nat} {data old : List B}

theorem patched_end (zero : B) (old data : List B) : patched zero old old.length data = old ++ data := by
  unfold patched
  simp

theorem openCreate_file : (fs.openCreate p).2.names p = some (fs.openCreate p).1 := by
  unfold openCreate
  split
  · rename_i hname
    exact hname
  · simp [create]

theorem openCreate_cases (fs : FS P B) (p : P) : (∃ h, fs.names p = some h ∧ fs.openCreate p = (h, fs)) ∨
    (fs.names p = none ∧ fs.openCreate p = (fs.next, fs.create p)) := by
  unfold openCreate
  cases hname : fs.names p with
  | some h => exact .inl ⟨h, rfl, rfl⟩
  | none => exact .inr ⟨rfl, rfl⟩

omit [DecidableEq P] in
theorem SameAt.refl (p : P) (fs : FS P B) : SameAt p fs fs := ⟨rfl, fun _ _ _ => rfl, fun _ _ => rfl, Nat.le_refl _⟩

omit [DecidableEq P] in
theorem SameAt.trans (h : SameAt p fs fs') (h' : SameAt p fs' fs'') : SameAt p fs fs'' := by
  refine ⟨h'.name.trans h.name, fun k hk hb => ?_, fun k hk => ?_, Nat.le_trans h.next h'.next⟩
  · have hk' := Nat.lt_of_lt_of_le hk h.next
    rw [h'.content k hk' ((h.birth k hk).trans hb), h.content k hk hb]
  · rw [h'.birth k (Nat.lt_of_lt_of_le hk h.next), h.birth k hk]

theorem Sound.openCreate (hfs : fs.Sound home) (p : P) : (fs.openCreate p).2.Sound home := by
  rcases openCreate_cases fs p with ⟨h, -, hopen⟩ | ⟨-, hopen⟩
  · rw [hopen]
    exact hfs
  · rw [hopen]
    refine ⟨fun q h hq => ?_, fun q h hhome hq => ?_⟩
    · simp only [create] at hq ⊢
      split at hq
      · obtain rfl := Option.some.inj hq
        omega
      · have := hfs.known q h hq
        omega
    · simp only [create] at hq ⊢
      split at hq
      · rename_i hqp
        obtain rfl := Option.some.inj hq
        simp [hqp]
      · have hlt := hfs.known q h hq
        rw [if_neg (by omega)]
        exact hfs.born q h hhome hq

omit [DecidableEq P] in
theorem Sound.writeAt (hfs : fs.Sound home) (zero : B) (h off : Nat) (data : List B) :
    (fs.writeAt zero h off data).Sound home :=
  ⟨hfs.known, hfs.born⟩

theorem Sound.remove (hfs : fs.Sound home) (p : P) : (fs.remove p).Sound home := by
  refine ⟨fun q h hq => ?_, fun q h hhome hq => ?_⟩
  · simp only [FS.remove] at hq
    split at hq
    · cases hq
    · exact hfs.known q h hq
  · simp only [FS.remove] at hq
    split at hq
    · cases hq
    · exact hfs.born q h hhome hq

theorem Sound.rename (hfs : fs.Sound home) (p : P) (hq : ¬home q) : (fs.rename p q).Sound home := by
  refine ⟨fun r h hr => ?_, fun r h hhome hr => ?_⟩
  · simp only [FS.rename] at hr
    split at hr
    · exact hfs.known p h hr
    · split at hr
      · cases hr
      · exact hfs.known r h hr
  · simp only [FS.rename] at hr
    split at hr
    · rename_i hrq
      exact absurd (hrq ▸ hhome) hq
    · split at hr
      · cases hr
      · exact hfs.born r h hhome hr

theorem Single.openCreate (hsingle : fs.Single) (hfs : fs.Sound home) (p : P) : (fs.openCreate p).2.Single := by
  rcases openCreate_cases fs p with ⟨h, -, hopen⟩ | ⟨-, hopen⟩
  · rw [hopen]
    exact hsingle
  · rw [hopen]
    intro q r h hq hr
    simp only [create] at hq hr
    -- the new file has no other name
    split at hq <;> split at hr
    · rename_i hqp hrp
      rw [hqp, hrp]
    · obtain rfl := Option.some.inj hq
      exact absurd (hfs.known r _ hr) (Nat.lt_irrefl _)
    · obtain rfl := Option.some.inj hr
      exact absurd (hfs.known q _ hq) (Nat.lt_irrefl _)
    · exact hsingle q r h hq hr

theorem Single.remove (hsingle : fs.Single) (p : P) : (fs.remove p).Single := by
  intro q r h hq hr
  simp only [FS.remove] at hq hr
  split at hq <;> split at hr
  · cases hq
  · cases hq
  · cases hr
  · exact hsingle q r h hq hr

theorem Single.rename (hsingle : fs.Single) (p q : P) : (fs.rename p q).Single := by
  intro r r' h hr hr'
  simp only [FS.rename] at hr hr'
  split at hr <;> split at hr'
  · rename_i hrq hrq'
    rw [hrq, hrq']
  · split at hr'
    · cases hr'
    · rename_i hne
      exact absurd (hsingle p r' h hr hr').symm hne
  · split at hr
    · cases hr
    · rename_i hne
      exact absurd (hsingle r p h hr hr') hne
  · split at hr <;> split at hr'
    · cases hr
    · cases hr
    · cases hr'
    · exact hsingle r r' h hr hr'

/-! ### What is done under one name leaves the others alone -/

theorem SameAt.openCreate (fs : FS P B) (hpq : p ≠ q) : SameAt p fs (fs.openCreate q).2 := by
  rcases openCreate_cases fs q with ⟨h, -, hopen⟩ | ⟨-, hopen⟩
  · rw [hopen]
    exact .refl p fs
  · rw [hopen]
    refine ⟨?_, fun h hh _ => ?_, fun h hh => ?_, Nat.le_succ _⟩
    · simp [create, hpq]
    · simp only [create]
      rw [if_neg (by omega)]
    · simp only [create]
      rw [if_neg (by omega)]

omit [DecidableEq P] in
theorem SameAt.writeAt (fs : FS P B) (zero : B) (off : Nat) (data : List B) (hh : fs.birth h ≠ p) :
    SameAt p fs (fs.writeAt zero h off data) := by
  refine ⟨rfl, fun k _ hk => ?_, fun _ _ => rfl, Nat.le_refl _⟩
  simp only [FS.writeAt]
  exact if_neg fun hkh : k = h => hh (by rw [← hkh]; exact hk)

theorem SameAt.remove (fs : FS P B) (hpq : p ≠ q) : SameAt p fs (fs.remove q) := by
  refine ⟨?_, fun _ _ _ => rfl, fun _ _ => rfl, Nat.le_refl _⟩
  simp [FS.remove, hpq]

theorem SameAt.rename (fs : FS P B) {r : P} (hpq : p ≠ q) (hpr : p ≠ r) : SameAt p fs (fs.rename q r) := by
  refine ⟨?_, fun _ _ _ => rfl, fun _ _ => rfl, Nat.le_refl _⟩
  simp [FS.rename, hpq, hpr]

end Lemmas

end FS

end FileSystem
