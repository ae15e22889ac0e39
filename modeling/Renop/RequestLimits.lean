import Mathlib
import Renop.SqlTable

/-!
# Limits on requests

The limiters of `anomaly.go`, one for each address, and the number of requests under way, as goroutines use them at once.
Every access to the map or to a counter is one step, and the steps of the goroutines interleave. The counter of the limiters
is kept next to the map and not with it, so it may be off while somebody is between the two; `pending` is by how much.
-/

namespace Renop.RequestLimits

open Sql

/-! ### Goroutines -/

section Threads
variable {α : Type} {threads : List α} {i j : Nat} {p q : α}

/-- The sum of a quantity over all goroutines. -/
def total (f : α → Int) (threads : List α) : Int := (threads.map f).sum

theorem total_append (f : α → Int) (threads : List α) (p : α) : total f (threads ++ [p]) = total f threads + f p := by
  simp [total]

theorem total_set (f : α → Int) (h : threads[i]? = some p) (q : α) :
    total f (threads.set i q) = total f threads - f p + f q := by
  induction threads generalizing i with
  | nil => simp at h
  | cons r threads ih =>
    cases i with
    | zero =>
      obtain rfl : r = p := by simpa using h
      simp [total, Int.add_comm]
    | succ i =>
      have := ih (i := i) (by simpa using h)
      simp only [total, List.set_cons_succ, List.map_cons, List.sum_cons] at this ⊢
      omega

theorem total_nonneg {f : α → Int} (h : ∀ p ∈ threads, 0 ≤ f p) :
    0 ≤ total f threads := List.sum_nonneg (by simpa using h)

theorem total_zero {f : α → Int} (h : ∀ p ∈ threads, f p = 0) :
    total f threads = 0 := List.sum_eq_zero (by simpa using h)

theorem total_add (f g : α → Int) (threads : List α) :
    total (fun p => f p + g p) threads = total f threads + total g threads :=
  List.sum_map_add

theorem getElem?_moved (h : (threads.set i q)[j]? = some p) : (j = i ∧ p = q) ∨ (j ≠ i ∧ threads[j]? = some p) := by
  by_cases hj : j = i
  · subst hj
    rw [List.getElem?_set_self'] at h
    obtain ⟨-, -, rfl⟩ := Option.map_eq_some_iff.1 h
    exact .inl ⟨rfl, rfl⟩
  · rw [List.getElem?_set_ne fun heq => hj heq.symm] at h
    exact .inr ⟨hj, h⟩

theorem getElem?_started (h : (threads ++ [q])[j]? = some p) : (j = threads.length ∧ p = q) ∨ threads[j]? = some p := by
  rcases lt_or_ge j threads.length with hj | hj
  · rw [List.getElem?_append_left hj] at h
    exact .inr h
  · rw [List.getElem?_append_right hj] at h
    obtain ⟨hlt, heq⟩ := List.getElem?_eq_some_iff.1 h
    simp only [List.length_singleton] at hlt
    refine .inl ⟨by omega, ?_⟩
    simpa using heq.symm

/-- The states of the runs whose events are all fair. -/
inductive Reach {σ ε : Type} (step : σ → ε → σ) (init : σ) (fair : σ → ε → Prop) : σ → Prop
  | init : Reach step init fair init
  | next {s : σ} (h : Reach step init fair s) (e : ε) (he : fair s e) : Reach step init fair (step s e)

end Threads

/-! ### Limiters by address -/

def maxIPLimiterEntries : Int := 10000

/-- Five minutes in nanoseconds. -/
def timeoutNano : Int := 300000000000

/-- A limiter is known by a number. -/
structure Entry where
  ip : String
  lastSeen : Int
  limiter : Nat
deriving DecidableEq, Repr

def Entry.seen (ip : String) (limiter : Nat) (now : Int) (e : Entry) : Entry :=
  if e.ip = ip ∧ e.limiter = limiter then { e with lastSeen := now } else e

theorem Entry.ip_seen (ip : String) (limiter : Nat) (now : Int) (e : Entry) : (e.seen ip limiter now).ip = e.ip := by
  unfold Entry.seen
  split <;> rfl

/-- Where a goroutine stands, in `GetLimiter` or in `cleanup`. -/
inductive Phase
  | load (ip : String) (now : Int)
  /-- An entry was found. -/
  | touch (ip : String) (limiter : Nat) (now : Int)
  | store (ip : String) (now : Int)
  /-- The entry is in the map, and not counted. -/
  | counting (ip : String) (limiter : Nat)
  /-- The entry was one too many. -/
  | exceeding (ip : String)
  | uncounting
  /-- The limiter of the answer, or the one of the overflow. -/
  | answered (limiter : Option Nat)
  | sweeping (now : Int) (removed : Nat)
  /-- The entry was too old. -/
  | deleting (key : String) (now : Int) (removed : Nat)
  | swept (removed : Nat)
deriving DecidableEq, Repr

structure World where
  limiters : Table Entry.ip
  count : Int
  nextLimiter : Nat
  threads : List Phase

def World.init : World := ⟨.empty, 0, 0, []⟩

inductive Event
  | request (ip : String) (now : Int)
  | sweep (now : Int)
  /-- The next access of a goroutine. -/
  | step (i : Nat)
  /-- `Range` comes to a key. -/
  | visit (i : Nat) (key : String)
  | finish (i : Nat)

namespace World

def start (w : World) (p : Phase) : World := { w with threads := w.threads ++ [p] }

def move (w : World) (i : Nat) (p : Phase) : World := { w with threads := w.threads.set i p }

def remove (w : World) (ip : String) : World := { w with limiters := w.limiters.delete fun e => e.ip = ip }

def add (w : World) (n : Int) : World := { w with count := w.count + n }

/-- `LoadOrStore` of a new entry. -/
def storeNew (w : World) (ip : String) (now : Int) : World :=
  { w with limiters := w.limiters.put ⟨ip, now, w.nextLimiter⟩, nextLimiter := w.nextLimiter + 1 }

/-- A time stored in an entry, which may be in the map no more. -/
def seen (w : World) (ip : String) (limiter : Nat) (now : Int) : World :=
  { w with limiters := w.limiters.update (Entry.seen ip limiter now) (Entry.ip_seen ip limiter now) }

/-- One access of a goroutine. -/
def access (w : World) (i : Nat) : Phase → World
  | .load ip now =>
    match w.limiters.find? ip with
    | some e => w.move i (.touch ip e.limiter now)
    | none => w.move i (.store ip now)
  | .touch ip limiter now => (w.seen ip limiter now).move i (.answered (some limiter))
  | .store ip now =>
    match w.limiters.find? ip with
    | some e => w.move i (.touch ip e.limiter now)
    | none => (w.storeNew ip now).move i (.counting ip w.nextLimiter)
  | .counting ip limiter =>
    if maxIPLimiterEntries < w.count + 1 then (w.add 1).move i (.exceeding ip) else (w.add 1).move i
      (.answered (some limiter))
  | .exceeding ip =>
    if (w.limiters.find? ip).isSome = true then (w.remove ip).move i .uncounting else w.move i (.answered none)
  | .uncounting => (w.add (-1)).move i (.answered none)
  | .deleting key now removed =>
    if (w.limiters.find? key).isSome = true then (w.remove key).move i (.sweeping now (removed + 1))
    else w.move i (.sweeping now removed)
  | _ => w

def next (w : World) : Event → World
  | .request ip now => w.start (.load ip now)
  | .sweep now => w.start (.sweeping now 0)
  | .step i =>
    match w.threads[i]? with
    | some p => w.access i p
    | none => w
  | .visit i key =>
    match w.threads[i]?, w.limiters.find? key with
    | some (.sweeping now removed), some e =>
      if timeoutNano < now - e.lastSeen then w.move i (.deleting key now removed) else w
    | _, _ => w
  | .finish i =>
    match w.threads[i]? with
    | some (.sweeping _ removed) => (w.add (-(removed : Int))).move i (.swept removed)
    | _ => w

end World

/-! #### The counter -/

/-- What a goroutine still has to add to the counter, or to take off it. -/
def Phase.pending : Phase → Int
  | .counting _ _ => 1
  | .uncounting => -1
  | .sweeping _ removed => -removed
  | .deleting _ _ removed => -removed
  | _ => 0

def World.size (w : World) : Int := w.limiters.rows.length

/-- The counter is the size of the map, once all that is under way is settled. -/
def World.Balanced (w : World) : Prop := w.count + total Phase.pending w.threads = w.size

theorem length_delete {t : Table Entry.ip} {ip : String} (h : (t.find? ip).isSome = true) :
    (t.delete fun e => e.ip = ip).rows.length + 1 = t.rows.length := by
  obtain ⟨e, he⟩ := Option.isSome_iff_exists.1 h
  have hkey := t.filter_key ip
  rw [he, Option.toList_some] at hkey
  have hlen := List.length_eq_length_filter_add (l := t.rows) fun e => decide (e.ip = ip)
  rw [hkey, List.length_singleton] at hlen
  rw [Table.rows_delete]
  omega

theorem length_put {t : Table Entry.ip} {e : Entry} (h : t.find? e.ip = none) :
    (t.put e).rows.length = t.rows.length + 1 := by
  have hfilter : (t.rows.filter fun b => b.ip ≠ e.ip) = t.rows :=
    List.filter_eq_self.2 fun b hb => by simpa using Table.find?_eq_none.1 h b hb
  show ((t.rows.filter fun b => b.ip ≠ e.ip) ++ [e]).length = _
  rw [hfilter, List.length_append, List.length_singleton]

section Balance
variable {w : World} {i : Nat} {p q : Phase}

theorem size_remove {ip : String} (h : (w.limiters.find? ip).isSome = true) : (w.remove ip).size = w.size - 1 := by
  have := length_delete h
  simp only [World.size, World.remove]
  omega

theorem size_storeNew {ip : String} (h : w.limiters.find? ip = none) (now : Int) : (w.storeNew ip now).size = w.size + 1 := by
  have := length_put (t := w.limiters) (e := ⟨ip, now, w.nextLimiter⟩) h
  simp only [World.size, World.storeNew]
  omega

theorem World.Balanced.move (h : w.Balanced) (hp : w.threads[i]? = some p) {v : World} (hthreads : v.threads = w.threads)
    (hsum : v.count + q.pending - v.size = w.count + p.pending - w.size) : (v.move i q).Balanced := by
  unfold World.Balanced at h ⊢
  have htotal := total_set Phase.pending hp q
  show v.count + total Phase.pending (v.threads.set i q) = v.size
  rw [hthreads, htotal]
  omega

theorem World.Balanced.start (h : w.Balanced) (hp : p.pending = 0) : (w.start p).Balanced := by
  unfold World.Balanced at h ⊢
  have htotal := total_append Phase.pending w.threads p
  show w.count + total Phase.pending (w.threads ++ [p]) = w.size
  omega

theorem World.Balanced.access (h : w.Balanced) (hp : w.threads[i]? = some p) : (w.access i p).Balanced := by
  cases p with
  | load ip now =>
    simp only [World.access]
    split
    · exact h.move hp rfl rfl
    · exact h.move hp rfl rfl
  | touch ip limiter now => exact h.move hp rfl (by simp [Phase.pending, World.seen, World.size])
  | store ip now =>
    simp only [World.access]
    split
    · exact h.move hp rfl rfl
    · rename_i hnone
      refine h.move hp rfl ?_
      rw [size_storeNew hnone]
      show w.count + 1 - (w.size + 1) = w.count + 0 - w.size
      omega
  | counting ip limiter =>
    simp only [World.access]
    split
    · exact h.move hp rfl (by simp [Phase.pending, World.add, World.size])
    · exact h.move hp rfl (by simp [Phase.pending, World.add, World.size])
  | exceeding ip =>
    simp only [World.access]
    split
    · rename_i hsome
      refine h.move hp rfl ?_
      rw [size_remove hsome]
      show w.count + -1 - (w.size - 1) = w.count + 0 - w.size
      omega
    · exact h.move hp rfl rfl
  | uncounting => exact h.move hp rfl (by simp [Phase.pending, World.add, World.size])
  | deleting key now removed =>
    simp only [World.access]
    split
    · rename_i hsome
      refine h.move hp rfl ?_
      rw [size_remove hsome]
      show w.count + -((removed + 1 : Nat) : Int) - (w.size - 1) = w.count + -(removed : Int) - w.size
      omega
    · exact h.move hp rfl rfl
  | answered limiter => exact h
  | sweeping now removed => exact h
  | swept removed => exact h

theorem World.Balanced.next (h : w.Balanced) (e : Event) : (w.next e).Balanced := by
  cases e with
  | request ip now => exact h.start rfl
  | sweep now => exact h.start rfl
  | step i =>
    simp only [World.next]
    split
    · rename_i p hp
      exact h.access hp
    · exact h
  | visit i key =>
    simp only [World.next]
    split
    · rename_i hp _
      split
      · exact h.move hp rfl rfl
      · exact h
    · exact h
  | finish i =>
    simp only [World.next]
    split
    · rename_i hp
      refine h.move hp rfl ?_
      show w.count + -_ + 0 - w.size = w.count + -_ - w.size
      omega
    · exact h

end Balance

theorem reach_balanced {fair : World → Event → Prop} {w : World} (h : Reach World.next .init fair w) : w.Balanced := by
  induction h with
  | init => rfl
  | next _ e _ ih => exact ih.next e

/-! #### The size -/

/-- The address whose new entry a goroutine has not decided on. -/
def Phase.owned : Phase → Option String
  | .counting ip _ => some ip
  | .exceeding ip => some ip
  | _ => none

/-- What a goroutine may hold of the counter above the limit. -/
def Phase.slack : Phase → Int
  | .exceeding _ => 1
  | .uncounting => 1
  | .sweeping _ removed => removed
  | .deleting _ _ removed => removed
  | _ => 0

def World.undecided (w : World) : Nat := w.threads.countP fun p => p.owned.isSome

/-- The sweep does not take away an entry that somebody has just stored and not decided on; those are five minutes old when it
may. -/
def Spares (w : World) (e : Event) : Prop :=
  ∀ i key now removed, e = .step i → w.threads[i]? = some (.deleting key now removed) →
    ∀ (j : Nat) (p : Phase), w.threads[j]? = some p → p.owned ≠ some key

theorem undecided_eq (w : World) : (w.undecided : Int) = total (fun p => p.slack + p.pending) w.threads := by
  unfold World.undecided
  induction w.threads with
  | nil => rfl
  | cons p threads ih =>
    rw [List.countP_cons]
    simp only [total, List.map_cons, List.sum_cons] at ih ⊢
    have hp : ((if p.owned.isSome = true then 1 else 0 : Nat) : Int) = p.slack + p.pending := by
      cases p <;> simp [Phase.owned, Phase.slack, Phase.pending]
    push_cast at hp ⊢
    omega

theorem total_slack (w : World) : total Phase.slack w.threads + total Phase.pending w.threads = w.undecided := by
  rw [undecided_eq, total_add]

/-- Each undecided entry is in the map and belongs to one goroutine, and the counter is within the limit but for what is under
way. -/
structure World.Settled (w : World) : Prop where
  bound : w.count ≤ maxIPLimiterEntries + total Phase.slack w.threads
  present : ∀ (i : Nat) (p : Phase) ip, w.threads[i]? = some p → p.owned = some ip → (w.limiters.find? ip).isSome = true
  alone : ∀ (i j : Nat) (p q : Phase) ip, w.threads[i]? = some p → w.threads[j]? = some q → p.owned = some ip →
    q.owned = some ip → i = j

namespace World.Settled
variable {w v : World} {i : Nat} {p q : Phase}

theorem start (h : w.Settled) (hslack : p.slack = 0) (howned : p.owned = none) : (w.start p).Settled := by
  refine ⟨?_, fun j r ip hr hip => ?_, fun j k r t ip hr ht hip hip' => ?_⟩
  · have htotal := total_append Phase.slack w.threads p
    have hbound := h.bound
    show w.count ≤ maxIPLimiterEntries + total Phase.slack (w.threads ++ [p])
    omega
  · rcases getElem?_started hr with ⟨-, rfl⟩ | hr
    · rw [howned] at hip
      cases hip
    · exact h.present j r ip hr hip
  · rcases getElem?_started hr with ⟨-, rfl⟩ | hr
    · rw [howned] at hip
      cases hip
    · rcases getElem?_started ht with ⟨-, rfl⟩ | ht
      · rw [howned] at hip'
        cases hip'
      · exact h.alone j k r t ip hr ht hip hip'

theorem move (h : w.Settled) (hp : w.threads[i]? = some p) (hthreads : v.threads = w.threads)
    (hcount : v.count + p.slack ≤ maxIPLimiterEntries + total Phase.slack w.threads + q.slack)
    (hkeep : ∀ (j : Nat) (r : Phase) ip, j ≠ i → w.threads[j]? = some r → r.owned = some ip →
      (v.limiters.find? ip).isSome = true) (hown : ∀ ip, q.owned = some ip → (v.limiters.find? ip).isSome = true ∧
      ∀ (j : Nat) (r : Phase), j ≠ i → w.threads[j]? = some r → r.owned ≠ some ip) : (v.move i q).Settled := by
  have hmoved : ∀ {j r}, (v.move i q).threads[j]? = some r → (j = i ∧ r = q) ∨
      (j ≠ i ∧ w.threads[j]? = some r) := by
    intro j r hr
    rw [show (v.move i q).threads = w.threads.set i q from congrArg (List.set · i q) hthreads] at hr
    exact getElem?_moved hr
  refine ⟨?_, fun j r ip hr hip => ?_, fun j k r t ip hr ht hip hip' => ?_⟩
  · have htotal := total_set Phase.slack hp q
    show v.count ≤ maxIPLimiterEntries + total Phase.slack (v.threads.set i q)
    rw [hthreads, htotal]
    omega
  · rcases hmoved hr with ⟨-, rfl⟩ | ⟨hne, hr⟩
    · exact (hown ip hip).1
    · exact hkeep j r ip hne hr hip
  · rcases hmoved hr with ⟨rfl, rfl⟩ | ⟨hne, hr'⟩
    · rcases hmoved ht with ⟨rfl, -⟩ | ⟨hne', ht'⟩
      · rfl
      · exact absurd hip' ((hown ip hip).2 k t hne' ht')
    · rcases hmoved ht with ⟨rfl, rfl⟩ | ⟨hne', ht'⟩
      · exact absurd hip ((hown ip hip').2 j r hne hr')
      · exact h.alone j k r t ip hr' ht' hip hip'

theorem pass (h : w.Settled) (hp : w.threads[i]? = some p) (hthreads : v.threads = w.threads)
    (hsame : ∀ ip, (w.limiters.find? ip).isSome = true → (v.limiters.find? ip).isSome = true)
    (hcount : v.count + p.slack ≤ w.count + q.slack) (howned : q.owned = none) : (v.move i q).Settled := by
  have hbound := h.bound
  refine h.move hp hthreads (by omega) (fun j r ip _ hr hip => hsame ip (h.present j r ip hr hip)) fun ip hip => ?_
  rw [howned] at hip
  cases hip

theorem remove {ip : String} (h : w.Settled) (hp : w.threads[i]? = some p) (hcount : p.slack ≤ q.slack)
    (howned : q.owned = none) (hfree : ∀ (j : Nat) (r : Phase), j ≠ i → w.threads[j]? = some r → r.owned ≠ some ip) :
      ((w.remove ip).move i q).Settled := by
  have hbound := h.bound
  refine h.move hp rfl (by show w.count + _ ≤ _; omega) (fun j r ip' hne hr hip => ?_) fun ip' hip => ?_
  · have hother : ip' ≠ ip := by
      rintro rfl
      exact hfree j r hne hr hip
    show ((w.limiters.delete fun e => e.ip = ip).find? ip').isSome = true
    rw [Table.find?_delete_of fun e he => by simp [he, hother]]
    exact h.present j r ip' hr hip
  · rw [howned] at hip
    cases hip

theorem access (h : w.Settled) (hspare : Spares w (.step i)) (hp : w.threads[i]? = some p) : (w.access i p).Settled := by
  have hbound := h.bound
  cases p with
  | load ip now =>
    simp only [World.access]
    split <;> exact h.pass hp rfl (fun _ => id) le_rfl rfl
  | touch ip limiter now =>
    refine h.pass hp rfl (fun ip' hsome => ?_) le_rfl rfl
    show ((w.limiters.update (Entry.seen ip limiter now) (Entry.ip_seen ip limiter now)).find? ip').isSome = true
    rwa [Table.find?_update, Option.isSome_map]
  | store ip now =>
    simp only [World.access]
    split
    · exact h.pass hp rfl (fun _ => id) le_rfl rfl
    · rename_i hnone
      refine h.move hp rfl (by show w.count + 0 ≤ _ + 0; omega) (fun j r ip' _ hr hip => ?_) fun ip' hip => ?_
      · show ((w.limiters.put _).find? ip').isSome = true
        rw [Table.find?_put]
        split
        · rfl
        · exact h.present j r ip' hr hip
      · obtain rfl : ip = ip' := Option.some.inj hip
        refine ⟨?_, fun j r _ hr hip' => ?_⟩
        · show ((w.limiters.put _).find? ip).isSome = true
          rw [Table.find?_put, if_pos rfl]
          rfl
        · -- nobody has an entry for an address that has none
          have := h.present j r ip hr hip'
          rw [hnone] at this
          cases this
  | counting ip limiter =>
    simp only [World.access]
    split
    · refine h.move hp rfl (by show w.count + 1 + 0 ≤ _ + 1; omega) (fun j r ip' _ hr hip => h.present j r ip' hr hip)
        fun ip' hip => ?_
      refine ⟨h.present i _ ip' hp hip, fun j r hne hr hip' => ?_⟩
      exact hne (h.alone j i r _ ip' hr hp hip' hip)
    · rename_i hle
      have hslack : 0 ≤ total Phase.slack w.threads := total_nonneg fun r _ => by cases r <;> simp [Phase.slack]
      refine h.move hp rfl (by show w.count + 1 + 0 ≤ _ + 0; omega) (fun j r ip' _ hr hip => h.present j r ip' hr hip)
        fun ip' hip => ?_
      cases hip
  | exceeding ip =>
    simp only [World.access]
    split
    · exact h.remove hp le_rfl rfl fun j r hne hr hip => hne (h.alone j i r _ ip hr hp hip rfl)
    · rename_i hgone
      exact absurd (h.present i _ ip hp rfl) hgone
  | uncounting => exact h.pass hp rfl (fun _ => id) (by show w.count + -1 + 1 ≤ w.count + 0; omega) rfl
  | deleting key now removed =>
    simp only [World.access]
    split
    · refine h.remove hp ?_ rfl fun j r _ hr => hspare i key now removed rfl hp j r hr
      show (removed : Int) ≤ ((removed + 1 : Nat) : Int)
      omega
    · exact h.pass hp rfl (fun _ => id) le_rfl rfl
  | answered limiter => exact h
  | sweeping now removed => exact h
  | swept removed => exact h

theorem next (h : w.Settled) (e : Event) (he : Spares w e) : (w.next e).Settled := by
  cases e with
  | request ip now => exact h.start rfl rfl
  | sweep now => exact h.start rfl rfl
  | step i =>
    simp only [World.next]
    split
    · rename_i p hp
      exact h.access he hp
    · exact h
  | visit i key =>
    simp only [World.next]
    split
    · rename_i hp _
      split
      · exact h.pass hp rfl (fun _ => id) le_rfl rfl
      · exact h
    · exact h
  | finish i =>
    simp only [World.next]
    split
    · rename_i now removed hp
      refine h.pass hp rfl (fun _ => id) ?_ rfl
      show w.count + -(removed : Int) + (removed : Int) ≤ w.count + 0
      omega
    · exact h

end World.Settled

/-- However the goroutines interleave, the counter differs from the size of the map by what they still have to add and to take
off, so it is the size whenever nobody is between the two. As long as the sweep spares entries that are not decided on, the
map is never larger than the limit and those. -/
theorem limiters_counted {fair : World → Event → Prop} {w : World} (h : Reach World.next .init fair w) :
    w.count + total Phase.pending w.threads = w.size ∧ ((∀ p ∈ w.threads, p.pending = 0) → w.count = w.size) ∧
    ((∀ v e, fair v e → Spares v e) → w.size ≤ maxIPLimiterEntries + w.undecided) := by
  have hbalanced := reach_balanced h
  refine ⟨hbalanced, fun hquiet => ?_, fun hspares => ?_⟩
  · have hzero := total_zero hquiet
    unfold World.Balanced at hbalanced
    omega
  · have hsettled : w.Settled := by
      clear hbalanced
      induction h with
      | init => exact ⟨by decide, by simp [World.init], by simp [World.init]⟩
      | next _ e he ih => exact ih.next e (hspares _ e he)
    have hbound := hsettled.bound
    have hslack := total_slack w
    unfold World.Balanced at hbalanced
    omega

/-- An address whose entry is stored and not yet counted. -/
def stored : World := ((World.init.next (.request "10.0.0.1" 0)).next (.step 0)).next (.step 0)

theorem limiters_counted_stored : stored.count = 0 ∧ stored.size = 1 ∧
    stored.count + total Phase.pending stored.threads = stored.size ∧
      stored.size ≤ maxIPLimiterEntries + stored.undecided := by
  have hreach : Reach World.next .init Spares stored := by
    refine .next (.next (.next .init _ ?_) _ ?_) _ ?_
    · rintro i key now removed ⟨⟩
    · rintro i key now removed ⟨⟩ h
      cases h
    · rintro i key now removed ⟨⟩ h
      cases h
  obtain ⟨hsum, -, hle⟩ := limiters_counted hreach
  exact ⟨rfl, rfl, hsum, hle fun _ _ h => h⟩

/-! ### Requests under way -/

namespace Active

/-- Where a request stands in `AnomalyMiddleware`; a `maxActive` of zero is no limit. -/
inductive Phase
  | arriving (maxActive : Nat)
  | rejecting
  | serving
  | left
deriving DecidableEq, Repr

structure World where
  active : Nat
  threads : List Phase

def World.init : World := ⟨0, []⟩

inductive Event
  | arrive (maxActive : Nat)
  | step (i : Nat)

/-- `Add(^uint64(0))` takes one off. -/
def World.next (w : World) : Event → World
  | .arrive maxActive => { w with threads := w.threads ++ [.arriving maxActive] }
  | .step i =>
    match w.threads[i]? with
    | some (.arriving maxActive) =>
      if 0 < maxActive ∧ maxActive < w.active + 1 then ⟨w.active + 1, w.threads.set i .rejecting⟩
      else ⟨w.active + 1, w.threads.set i .serving⟩
    | some .rejecting => ⟨w.active - 1, w.threads.set i .left⟩
    | some .serving => ⟨w.active - 1, w.threads.set i .left⟩
    | _ => w

def Phase.served : Phase → Int
  | .serving => 1
  | _ => 0

def Phase.entered : Phase → Int
  | .rejecting => 1
  | .serving => 1
  | _ => 0

/-- Every request has a limit, and none a higher one. -/
def Within (limit : Nat) (_ : World) (e : Event) : Prop := ∀ m, e = .arrive m → 0 < m ∧ m ≤ limit

structure Bounded (limit : Nat) (w : World) : Prop where
  active : (w.active : Int) = total Phase.entered w.threads
  served : total Phase.served w.threads ≤ limit
  limits : ∀ m, .arriving m ∈ w.threads → 0 < m ∧ m ≤ limit

theorem served_le (threads : List Phase) : total Phase.served threads ≤ total Phase.entered threads := by
  induction threads with
  | nil => exact le_rfl
  | cons p threads ih =>
    simp only [total, List.map_cons, List.sum_cons] at ih ⊢
    cases p <;> simp only [Phase.served, Phase.entered] <;> omega

namespace Bounded
variable {limit : Nat} {w : World} {i : Nat} {p q : Phase}

theorem arrive (h : Bounded limit w) {m : Nat} (hm : 0 < m ∧ m ≤ limit) : Bounded limit (w.next (.arrive m)) := by
  have hentered := total_append Phase.entered w.threads (.arriving m)
  have hserved := total_append Phase.served w.threads (.arriving m)
  have hactive := h.active
  have hle := h.served
  refine ⟨?_, ?_, fun m' hm' => ?_⟩
  · show (w.active : Int) = total Phase.entered (w.threads ++ [.arriving m])
    rw [hentered, hactive]
    simp [Phase.entered]
  · show total Phase.served (w.threads ++ [.arriving m]) ≤ limit
    rw [hserved]
    simpa [Phase.served] using hle
  · rcases List.mem_append.1 hm' with hm' | hm'
    · exact h.limits m' hm'
    · cases List.mem_singleton.1 hm'
      exact hm

theorem move (h : Bounded limit w) (hp : w.threads[i]? = some p) {active : Nat}
    (hactive : (active : Int) = w.active - p.entered + q.entered)
    (hserved : q.served = 1 → (active : Int) ≤ limit) (hle : q.served ≤ q.entered) (hq : ∀ m, q ≠ .arriving m)
    (hless : q.served ≠ 1 → q.served ≤ p.served) : Bounded limit ⟨active, w.threads.set i q⟩ := by
  have htotal := total_set Phase.entered hp q
  have hsum := total_set Phase.served hp q
  have hbound := served_le (w.threads.set i q)
  have hnow : (active : Int) = total Phase.entered (w.threads.set i q) := by
    rw [hactive, h.active, htotal]
  refine ⟨hnow, ?_, fun m hm => ?_⟩
  · show total Phase.served (w.threads.set i q) ≤ limit
    by_cases hone : q.served = 1
    · have := hserved hone
      omega
    · have := hless hone
      have := h.served
      omega
  · rcases List.mem_or_eq_of_mem_set hm with hm | rfl
    · exact h.limits m hm
    · exact absurd rfl (hq m)

theorem leave (h : Bounded limit w) (hp : w.threads[i]? = some p) (hentered : p.entered = 1) :
    Bounded limit ⟨w.active - 1, w.threads.set i .left⟩ := by
  have hleft : Phase.entered .left = 0 := rfl
  have hpos : 0 < w.active := by
    have htotal := total_set Phase.entered hp .left
    have hrest : 0 ≤ total Phase.entered (w.threads.set i .left) :=
      total_nonneg fun q _ => by cases q <;> simp [Phase.entered]
    have hactive := h.active
    omega
  refine h.move hp ?_ (fun hone => absurd hone (by decide)) (by decide) (by simp) fun _ => ?_
  · omega
  · cases p <;> simp [Phase.served]

theorem next (h : Bounded limit w) (e : Event) (he : Within limit w e) : Bounded limit (w.next e) := by
  cases e with
  | arrive m => exact h.arrive (he m rfl)
  | step i =>
    simp only [World.next]
    split
    · rename_i m hp
      obtain ⟨hm, hlimit⟩ := h.limits m (List.mem_of_getElem? hp)
      split
      · exact h.move hp (by simp [Phase.entered]) (fun hone => by simp [Phase.served] at hone) (by decide) (by simp)
          fun _ => by simp [Phase.served]
      · refine h.move hp (by simp [Phase.entered]) (fun _ => ?_) (by decide) (by simp) fun hne => absurd rfl hne
        omega
    · rename_i hp
      exact h.leave hp rfl
    · rename_i hp
      exact h.leave hp rfl
    · exact h

end Bounded

/-- However the requests interleave, never more are served at once than the largest limit that one of them saw; the counter is
the number of those that entered and have not left, so it comes back to zero. -/
theorem served_bounded {limit : Nat} {w : World} (h : Reach World.next .init (Within limit) w) :
    total Phase.served w.threads ≤ limit ∧ (w.active : Int) = total Phase.entered w.threads ∧
    ((∀ p ∈ w.threads, p = .left) → w.active = 0) := by
  have hbounded : Bounded limit w := by
    induction h with
    | init => exact ⟨rfl, by simp [World.init, total], by simp [World.init]⟩
    | next _ e he ih => exact ih.next e he
  refine ⟨hbounded.served, hbounded.active, fun hleft => ?_⟩
  have hzero : total Phase.entered w.threads = 0 := total_zero fun p hp => by
    rw [hleft p hp]
    rfl
  have := hbounded.active
  omega

/-- Two requests where one is allowed. -/
def crowd : World := (((World.init.next (.arrive 1)).next (.arrive 1)).next (.step 0)).next (.step 1)

theorem served_bounded_crowd : crowd.threads = [.serving, .rejecting] ∧ total Phase.served crowd.threads ≤ 1 := by
  have hwithin : ∀ w e, e = .arrive 1 ∨ e = .step 0 ∨ e = .step 1 → Within 1 w e := by
    rintro w e (rfl | rfl | rfl) m h <;> cases h
    decide
  have hreach : Reach World.next .init (Within 1) crowd :=
    .next (.next (.next (.next .init _ (hwithin _ _ (by simp))) _ (hwithin _ _ (by simp))) _ (hwithin _ _ (by simp))) _
      (hwithin _ _ (by simp))
  exact ⟨by decide, (served_bounded hreach).1⟩

end Active

end Renop.RequestLimits
