import Renop.SqlTable

/-!
# Membership tables

A table of members has a row for a team and a user, with a level. `Fields` says where a row keeps the
three, so the facts here hold for any such table: what the statements that insert rows, delete rows and
set levels do to the level of one user (`level?`), and when a team has exactly one owner (`Owner`).

The owner changes in three ways, and each has its rule: everybody else is demoted (`Owner.handOver`), the
levels of two users are exchanged (`Owner.exchange`), or nobody but the owner has the top level before
and after (`Owner.kept`).
-/

namespace Roster

open Sql

structure Fields (α κ υ : Type) where
  team : α → κ
  user : α → υ
  level : α → Int
  setLevel : Int → α → α
  team_setLevel : ∀ l a, team (setLevel l a) = team a
  user_setLevel : ∀ l a, user (setLevel l a) = user a
  level_setLevel : ∀ l a, level (setLevel l a) = l

variable {α κ υ : Type} {f : Fields α κ υ}

def Fields.key (f : Fields α κ υ) (a : α) : κ × υ := (f.team a, f.user a)

theorem Fields.key_setLevel (l : Int) (a : α) : f.key (f.setLevel l a) = f.key a := by
  rw [key, f.team_setLevel, f.user_setLevel, key]

/-! ### Statements -/

/-- `UPDATE … SET level = ? WHERE …` -/
def setLevels (t : Table f.key) (p : α → Bool) (l : Int) : Table f.key :=
  t.update (fun a => if p a then f.setLevel l a else a) fun a => by
    split
    · exact f.key_setLevel l a
    · rfl

section Levels
variable [DecidableEq κ] [DecidableEq υ]

/-- The level of a user's row. -/
def level? (t : Table f.key) (k : κ) (u : υ) : Option Int := (t.find? (k, u)).map f.level

variable {t t' : Table f.key} {k key : κ} {u : υ}

theorem level?_of_mem {a : α} (h : a ∈ t.rows) : level? t (f.team a) (f.user a) = some (f.level a) := by
  have hfind : t.find? (f.team a, f.user a) = some a := Table.find?_eq_some.2 ⟨h, rfl⟩
  rw [level?, hfind, Option.map_some]

theorem level?_eq_some {l : Int} : level? t k u = some l ↔ ∃ a ∈ t.rows, f.team a = k ∧ f.user a = u ∧
    f.level a = l := by
  constructor
  · intro h
    obtain ⟨a, hfind, hl⟩ := Option.map_eq_some_iff.1 h
    obtain ⟨hmem, hkey⟩ := Table.find?_eq_some.1 hfind
    obtain ⟨hk, hu⟩ := Prod.mk.inj hkey
    exact ⟨a, hmem, hk, hu, hl⟩
  · rintro ⟨a, hmem, rfl, rfl, rfl⟩
    exact level?_of_mem hmem

theorem level?_setLevels (p : α → Bool) (l : Int) :
    level? (setLevels t p l) k u = (t.find? (k, u)).map fun a => if p a then l else f.level a := by
  unfold level? setLevels
  rw [Table.find?_update, Option.map_map]
  congr 1
  funext a
  dsimp only [Function.comp]
  split
  · exact f.level_setLevel l a
  · rfl

theorem level?_setLevel (v : υ) (l : Int) :
    level? (setLevels t (fun a => f.team a = key && f.user a = v) l) k u =
      if k = key ∧ u = v then (level? t k u).map fun _ => l else level? t k u := by
  rw [level?_setLevels, level?]
  cases ha : t.find? (k, u) with
  | none => simp
  | some a =>
    obtain ⟨hk, hu⟩ := Prod.mk.inj (Table.find?_eq_some.1 ha).2
    simp only [Option.map_some, hk, hu, Bool.and_eq_true, decide_eq_true_eq]
    split <;> rfl

theorem level?_demote (p : υ → Bool) (top l : Int) :
    level? (setLevels t (fun a => f.team a = key && f.level a = top && p (f.user a)) l) k u =
      if k = key ∧ p u = true ∧ level? t k u = some top then some l else level? t k u := by
  rw [level?_setLevels, level?]
  cases ha : t.find? (k, u) with
  | none => simp
  | some a =>
    obtain ⟨hk, hu⟩ := Prod.mk.inj (Table.find?_eq_some.1 ha).2
    simp only [Option.map_some, hk, hu, Bool.and_eq_true, decide_eq_true_eq, Option.some.injEq]
    split <;> rename_i h
    · rw [if_pos ⟨h.1.1, h.2, h.1.2⟩]
    · rw [if_neg fun h' => h ⟨⟨h'.1, h'.2.2⟩, h'.2.1⟩]

theorem level?_insert {ε : Type} {a : α} {e : ε} (h : t.insert a e = .ok t') :
    level? t' k u = if k = f.team a ∧ u = f.user a then some (f.level a) else level? t k u := by
  rw [level?, Table.find?_insert h, level?]
  by_cases hid : k = f.team a ∧ u = f.user a
  · have hkey : (k, u) = f.key a := Prod.ext hid.1 hid.2
    rw [if_pos hkey, if_pos hid, Option.map_some]
  · have hkey : (k, u) ≠ f.key a := fun h => hid ⟨congrArg Prod.fst h, congrArg Prod.snd h⟩
    rw [if_neg hkey, if_neg hid]

theorem level?_delete (p : α → Bool) :
    level? (t.delete p) k u = (t.find? (k, u)).bind fun a => if p a then none else some (f.level a) := by
  unfold level?
  cases ha : t.find? (k, u) with
  | none =>
    have hnone : (t.delete p).find? (k, u) = none :=
      Table.find?_eq_none.2 fun a hmem => Table.find?_eq_none.1 ha a (List.mem_filter.1 hmem).1
    rw [hnone]
    rfl
  | some a =>
    obtain ⟨hmem, hkey⟩ := Table.find?_eq_some.1 ha
    by_cases hp : p a = true
    · have hnone : (t.delete p).find? (k, u) = none := by
        refine Table.find?_eq_none.2 fun b hb hkey' => ?_
        obtain ⟨hb, hpb⟩ := List.mem_filter.1 hb
        obtain rfl := t.eq_of_key hb hmem (hkey'.trans hkey.symm)
        simp [hp] at hpb
      rw [hnone, Option.bind_some, if_pos hp]
      rfl
    · have hsome : (t.delete p).find? (k, u) = some a :=
        Table.find?_eq_some.2 ⟨List.mem_filter.2 ⟨hmem, by simpa using hp⟩, hkey⟩
      rw [hsome, Option.bind_some, if_neg hp]
      rfl

theorem level?_deleteUser (v : υ) :
    level? (t.delete fun a => f.team a = key && f.user a = v) k u = if k = key ∧ u = v then none else level? t k u := by
  rw [level?_delete, level?]
  cases ha : t.find? (k, u) with
  | none => simp
  | some a =>
    obtain ⟨hk, hu⟩ := Prod.mk.inj (Table.find?_eq_some.1 ha).2
    simp only [Option.bind_some, Option.map_some, hk, hu, Bool.and_eq_true, decide_eq_true_eq]

end Levels

/-! ### The owner -/

/-- `u` alone has the level `top`. -/
structure Owner (top : Int) (levels : υ → Option Int) (u : υ) : Prop where
  has : levels u = some top
  only : ∀ v, levels v = some top → v = u

section Owner
variable {top : Int} {levels levels' : υ → Option Int} {u v : υ}

theorem Owner.congr (h : Owner top levels u) (hsame : ∀ v, levels' v = levels v) : Owner top levels' u :=
  ⟨(hsame u).trans h.has, fun v hv => h.only v ((hsame v).symm.trans hv)⟩

theorem Owner.kept (h : Owner top levels u) (hu : levels' u = some top)
    (hv : ∀ v, levels' v = some top → levels v = some top) : Owner top levels' u :=
  ⟨hu, fun v hv' => h.only v (hv v hv')⟩

theorem Owner.handOver (hu : levels' u = some top) (hv : ∀ v, v ≠ u → levels' v ≠ some top) : Owner top levels' u :=
  ⟨hu, fun v hv' => by_contra fun hne => hv v hne hv'⟩

theorem Owner.exchange {l : Int} (h : Owner top levels u) (hv : levels' v = some top) (hu : u ≠ v → levels' u = some l)
    (hl : l ≠ top) (hw : ∀ w, w ≠ u → w ≠ v → levels' w = levels w) : Owner top levels' v := by
  refine .handOver hv fun w hne hw' => ?_
  by_cases hwu : w = u
  · subst hwu
    have := hu hne
    exact hl (Option.some.inj (this.symm.trans hw'))
  · rw [hw w hwu hne] at hw'
    exact hwu (h.only w hw')

theorem Owner.count [DecidableEq κ] [DecidableEq υ] {t : Table f.key} {k : κ} (h : Owner top (level? t k) u) :
    t.rows.countP (fun a => f.team a = k && f.level a = top) = 1 := by
  obtain ⟨a, hmem, hk, hu, hl⟩ := level?_eq_some.1 h.has
  have hnodup : (t.rows.filter fun a => f.team a = k && f.level a = top).Nodup :=
    (List.Nodup.of_map _ t.nodup).filter _
  have hunique : ∀ b ∈ t.rows.filter (fun a => f.team a = k && f.level a = top), b = a := by
    intro b hb
    obtain ⟨hb, hp⟩ := List.mem_filter.1 hb
    simp only [Bool.and_eq_true, decide_eq_true_eq] at hp
    have hlevel := level?_of_mem hb
    rw [hp.1, hp.2] at hlevel
    have hbu := h.only _ hlevel
    exact t.eq_of_key hb hmem (Prod.ext (hp.1.trans hk.symm) (hbu.trans hu.symm))
  have ha : a ∈ t.rows.filter fun a => f.team a = k && f.level a = top :=
    List.mem_filter.2 ⟨hmem, by simp [hk, hl]⟩
  have hsingle : t.rows.filter (fun a => f.team a = k && f.level a = top) = [a] := by
    cases hrows : t.rows.filter fun a => f.team a = k && f.level a = top with
    | nil => simp [hrows] at ha
    | cons b rest =>
      rw [hrows] at hnodup hunique
      obtain rfl := hunique b (by simp)
      cases rest with
      | nil => rfl
      | cons c rest =>
        obtain rfl := hunique c (by simp)
        simp at hnodup
  rw [List.countP_eq_length_filter, hsingle]
  rfl

end Owner

end Roster
