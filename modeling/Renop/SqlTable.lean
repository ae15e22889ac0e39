import Mathlib.Algebra.GroupWithZero.Nat
import Mathlib.Algebra.Ring.Int.Defs
import Mathlib.Data.List.Nodup

/-!
# Keyed tables and transactions

A `Table key` is a list of rows no two of which have the same key, so a row is found by its key and a
statement that keeps the keys needs no further check. `insert` refuses a row whose key is taken, as a
primary key does; `update` and `delete` run over all rows, as the statements with a `WHERE` do.

A transaction is a function into `Except`: it returns the new tables or an error, and then nothing has
changed. `require` is a check in such a function; `bind_ok` and `require_ok` take a transaction that
succeeded apart.
-/

namespace Sql

variable {α κ ε : Type}

structure Table (key : α → κ) where
  rows : List α
  nodup : (rows.map key).Nodup

namespace Table

variable {key : α → κ}

def empty : Table key := ⟨[], List.nodup_nil⟩

/-- `UPDATE`: `f` says what becomes of a row. -/
def update (t : Table key) (f : α → α) (h : ∀ a, key (f a) = key a) : Table key :=
  ⟨t.rows.map f, by simpa [List.map_map, Function.comp_def, h] using t.nodup⟩

/-- `DELETE` of the rows with `p`. -/
def delete (t : Table key) (p : α → Bool) : Table key :=
  ⟨t.rows.filter fun a => !p a, t.nodup.sublist (List.filter_sublist.map _)⟩

@[simp] theorem rows_empty : (empty : Table key).rows = [] := rfl

@[simp] theorem rows_update (t : Table key) (f : α → α) (h : ∀ a, key (f a) = key a) :
    (t.update f h).rows = t.rows.map f := rfl

@[simp] theorem rows_delete (t : Table key) (p : α → Bool) : (t.delete p).rows = t.rows.filter fun a => !p a := rfl

theorem eq_of_key (t : Table key) {a b : α} (ha : a ∈ t.rows) (hb : b ∈ t.rows) (h : key a = key b) : a = b :=
  List.inj_on_of_nodup_map t.nodup ha hb h

theorem ext_rows {t u : Table key} (h : t.rows = u.rows) : t = u := by
  cases t
  cases u
  cases h
  rfl

theorem nodup_append {l : List α} {a : α} (h : (l.map key).Nodup) (ha : ∀ b ∈ l, key b ≠ key a) :
    ((l ++ [a]).map key).Nodup := by
  rw [List.map_append, List.nodup_append]
  refine ⟨h, by simp, fun x hx y hy => ?_⟩
  obtain ⟨b, hb, rfl⟩ := List.mem_map.1 hx
  have : y = key a := by simpa using hy
  exact this ▸ ha b hb

variable [DecidableEq κ]

def find? (t : Table key) (k : κ) : Option α := t.rows.find? fun a => key a = k

def insert (t : Table key) (a : α) (e : ε) : Except ε (Table key) :=
  if h : ∀ b ∈ t.rows, key b ≠ key a then .ok ⟨t.rows ++ [a], nodup_append t.nodup h⟩ else .error e

theorem find?_eq_some {t : Table key} {k : κ} {a : α} : t.find? k = some a ↔ a ∈ t.rows ∧ key a = k := by
  constructor
  · intro h
    exact ⟨List.mem_of_find?_eq_some h, by simpa using List.find?_some h⟩
  · rintro ⟨ha, rfl⟩
    cases hf : t.find? (key a) with
    | none =>
      have := List.find?_eq_none.1 hf a ha
      simp at this
    | some b =>
      have hb := List.mem_of_find?_eq_some hf
      rw [t.eq_of_key hb ha (by simpa using List.find?_some hf)]

theorem find?_eq_none {t : Table key} {k : κ} : t.find? k = none ↔ ∀ a ∈ t.rows, key a ≠ k := by
  simp [find?, List.find?_eq_none]

theorem insert_ok {t t' : Table key} {a : α} {e : ε} (h : t.insert a e = .ok t') :
    (∀ b ∈ t.rows, key b ≠ key a) ∧ t'.rows = t.rows ++ [a] := by
  unfold insert at h
  split at h
  · rename_i hk
    cases h
    exact ⟨hk, rfl⟩
  · cases h

theorem find?_insert {t t' : Table key} {a : α} {e : ε} (h : t.insert a e = .ok t') (k : κ) :
    t'.find? k = if k = key a then some a else t.find? k := by
  obtain ⟨hnew, hrows⟩ := insert_ok h
  unfold find?
  rw [hrows, List.find?_append]
  split
  · rename_i hk
    have hnone : t.rows.find? (fun b => key b = k) = none :=
      List.find?_eq_none.2 fun b hb => by simpa [hk] using hnew b hb
    rw [hnone]
    simp [hk]
  · rename_i hk
    simp [Ne.symm hk]

theorem find?_update (t : Table key) (f : α → α) (h : ∀ a, key (f a) = key a) (k : κ) :
    (t.update f h).find? k = (t.find? k).map f := by
  simp only [find?, rows_update, List.find?_map, Function.comp_def, h]

theorem find?_delete_of {t : Table key} {p : α → Bool} {k : κ} (h : ∀ a, key a = k → p a = false) :
    (t.delete p).find? k = t.find? k := by
  unfold find?
  rw [rows_delete, List.find?_filter]
  congr 1
  funext a
  by_cases ha : key a = k
  · simp [ha, h a ha]
  · simp [ha]

theorem find?_delete (t : Table key) (p : α → Bool) (k : κ) :
    (t.delete p).find? k = (t.find? k).filter fun a => !p a := by
  ext a
  rw [Option.filter_eq_some_iff, find?_eq_some, find?_eq_some, rows_delete, List.mem_filter]
  exact ⟨fun h => ⟨⟨h.1.1, h.2⟩, h.1.2⟩, fun h => ⟨⟨h.1.1, h.2⟩, h.1.2⟩⟩

theorem filter_key (t : Table key) (k : κ) : (t.rows.filter fun a => key a = k) = (t.find? k).toList := by
  cases h : t.find? k with
  | none =>
    rw [Option.toList_none, List.filter_eq_nil_iff]
    intro a ha
    simpa using find?_eq_none.1 h a ha
  | some a =>
    obtain ⟨ha, hk⟩ := find?_eq_some.1 h
    rw [Option.toList_some]
    have hnodup : (t.rows.filter fun b => key b = k).Nodup := (List.Nodup.of_map key t.nodup).filter _
    have hmem : ∀ b, b ∈ t.rows.filter (fun b => key b = k) ↔ b ∈ [a] := by
      intro b
      rw [List.mem_filter, List.mem_singleton, decide_eq_true_eq]
      exact ⟨fun hb => t.eq_of_key hb.1 ha (hb.2.trans hk.symm), fun hb => hb ▸ ⟨ha, hk⟩⟩
    exact List.perm_singleton.1 ((List.perm_ext_iff_of_nodup hnodup (List.nodup_singleton a)).2 hmem)

/-- `UPDATE` of the row with the key of `a`, or `INSERT` where there is none; the rows of a table have no order. -/
def put (t : Table key) (a : α) : Table key where
  rows := (t.rows.filter fun b => key b ≠ key a) ++ [a]
  nodup := nodup_append (t.nodup.sublist (List.filter_sublist.map _)) fun b hb => by simpa using (List.mem_filter.1 hb).2

theorem mem_put {t : Table key} {a b : α} : b ∈ (t.put a).rows ↔ b = a ∨ b ∈ t.rows ∧ key b ≠ key a := by
  simp [put, or_comm]

theorem find?_put (t : Table key) (a : α) (k : κ) : (t.put a).find? k = if k = key a then some a else t.find? k := by
  split
  · next hk => exact find?_eq_some.2 ⟨mem_put.2 (.inl rfl), hk.symm⟩
  · next hk =>
    ext b
    rw [find?_eq_some, find?_eq_some, mem_put]
    constructor
    · rintro ⟨rfl | ⟨hb, -⟩, hkey⟩
      · exact absurd hkey.symm hk
      · exact ⟨hb, hkey⟩
    · rintro ⟨hb, hkey⟩
      exact ⟨.inr ⟨hb, fun h => hk (hkey.symm.trans h)⟩, hkey⟩

end Table

/-! ### Transactions -/

/-- Go on only if `c` holds. -/
def require (c : Prop) [Decidable c] (e : ε) : Except ε Unit := if c then .ok () else .error e

/-- The row that a query must find. -/
def orError {β : Type} (x : Option β) (e : ε) : Except ε β :=
  match x with
  | some a => .ok a
  | none => .error e

section Except
variable {β γ : Type} {c : Prop} [Decidable c] {e : ε}

theorem bind_ok {x : Except ε β} {f : β → Except ε γ} {r : γ} :
    (x >>= f) = .ok r ↔ ∃ a, x = .ok a ∧ f a = .ok r := by
  cases x with
  | error e => exact ⟨nofun, fun ⟨_, h, _⟩ => nomatch h⟩
  | ok a => exact ⟨fun h => ⟨a, rfl, h⟩, fun ⟨_, h, hf⟩ => by cases h; exact hf⟩

@[simp] theorem require_ok {u : Unit} : require c e = .ok u ↔ c := by
  unfold require
  split <;> simp_all

@[simp] theorem orError_ok {x : Option β} {a : β} : orError x e = .ok a ↔ x = some a := by
  cases x <;> simp [orError]

theorem map_ok {x : Except ε β} {f : β → γ} {r : γ} : x.map f = .ok r ↔ ∃ a, x = .ok a ∧ f a = r := by
  cases x <;> simp [Except.map]

theorem mapError_ok {ε' : Type} {x : Except ε β} {f : ε → ε'} {a : β} : x.mapError f = .ok a ↔ x = .ok a := by
  cases x <;> simp [Except.mapError]

theorem require_bind_ok {f : Unit → Except ε γ} {r : γ} : (require c e >>= f) = .ok r ↔ c ∧ f () = .ok r := by
  rw [bind_ok]
  exact ⟨fun ⟨_, h, hf⟩ => ⟨require_ok.1 h, hf⟩, fun ⟨h, hf⟩ => ⟨(), require_ok.2 h, hf⟩⟩

theorem ok_getD {x : Except ε β} {d : β} (h : x.toBool = true) : x = .ok (x.toOption.getD d) := by
  cases x with
  | error e => cases h
  | ok a => rfl

theorem foldlM_ok {α : Type} {f : β → α → Except ε β} (I : List α → β → Prop) {l : List α} {b r : β}
    (h : l.foldlM f b = .ok r) (h0 : I [] b)
    (hstep : ∀ done a b b', a ∈ l → I done b → f b a = .ok b' → I (done ++ [a]) b') : I l r := by
  have aux : ∀ (rest done : List α) (b : β), done ++ rest = l → I done b → rest.foldlM f b = .ok r → I l r := by
    intro rest
    induction rest with
    | nil =>
      intro done b hl hb h
      cases h
      simpa [← hl] using hb
    | cons a rest ih =>
      intro done b hl hb h
      rw [List.foldlM_cons, bind_ok] at h
      obtain ⟨b', hb', h⟩ := h
      have ha : a ∈ l := hl ▸ List.mem_append_right done List.mem_cons_self
      exact ih (done ++ [a]) b' (by simpa using hl) (hstep done a b b' ha hb hb') h
  exact aux l [] b rfl h0 h

theorem mapM_ok {α : Type} {f : α → Except ε β} {l : List α} {out : List β} (h : l.mapM f = .ok out) :
    List.Forall₂ (fun a b => f a = .ok b) l out := by
  induction l generalizing out with
  | nil =>
    cases h
    exact .nil
  | cons a l ih =>
    rw [List.mapM_cons] at h
    obtain ⟨b, hb, h⟩ := bind_ok.1 h
    obtain ⟨bs, hbs, h⟩ := bind_ok.1 h
    cases h
    exact .cons hb (ih hbs)

end Except

end Sql
