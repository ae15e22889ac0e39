import Renop.GoMap
import Mathlib.Data.List.Induction
import Mathlib.Algebra.Order.Ring.Int

/-!
# External login states

`TransientAuthStateStore` of `transient_auth.go`: a bounded map from the digest of a raw value to the state of a flow which
began with it. `Put` sweeps the map once, in the order in which the map happens to be ranged over; that order is an argument
of the model's `put`.
-/

namespace Renop.TransientAuth

open GoMap

def maxTransientAuthStates : Nat := 2048

structure TransientAuthState where
  provider : String
  userID : String
  returnTo : String
  intent : String
  sessionHash : String
  snapshot : String
  verifier : String
  configHash : String
  expiresAt : Int
deriving DecidableEq, Repr

/-- `[sha256.Size]byte` -/
abbrev Key := BitVec 256

abbrev Entry := Key × TransientAuthState

abbrev Store := List Entry

structure Sweep where
  entries : Store
  oldestKey : Key
  oldestExpiry : Int

/-- The body of the loop in `Put`. -/
def visit (now : Int) (w : Sweep) (c : Entry) : Sweep :=
  if c.2.expiresAt ≤ now then { w with entries := drop c.1 w.entries }
  else if w.oldestExpiry = 0 ∨ c.2.expiresAt < w.oldestExpiry then { w with oldestKey := c.1, oldestExpiry :=
    c.2.expiresAt }
  else w

def sweep (s : Store) (order : List Entry) (now : Int) : Sweep := order.foldl (visit now) ⟨s, 0, 0⟩

section Calls
variable (sum256 : String → Key)

def put (s : Store) (raw : String) (state : TransientAuthState) (now : Int) (order : List Entry) : Store × Bool :=
  if raw = "" ∨ state.provider = "" ∨ state.expiresAt ≤ now then (s, false)
  else
    let key := sum256 raw
    let w := sweep s order now
    let entries := if maxTransientAuthStates ≤ w.entries.length then drop w.oldestKey w.entries else w.entries
    (assign key state entries, true)

def consume (s : Store) (raw provider : String) (now : Int) : Store × Option TransientAuthState :=
  if raw = "" ∨ provider = "" then (s, none)
  else
    let key := sum256 raw
    (drop key s,
      match s.find? fun c => c.1 = key with
      | none => none
      | some (_, state) => if state.provider ≠ provider ∨ state.expiresAt ≤ now then none else some state)

inductive Call
  /-- `order` is how the map is ranged over. -/
  | put (raw : String) (state : TransientAuthState) (now : Int) (order : List Entry)
  | consume (raw provider : String) (now : Int)

def Call.raw : Call → String
  | .put raw .. => raw
  | .consume raw .. => raw

def Call.now : Call → Int
  | .put _ _ now _ => now
  | .consume _ _ now => now

inductive Answer
  | put (ok : Bool)
  | consume (state : Option TransientAuthState)
deriving DecidableEq, Repr

def serve (s : Store) : Call → Store × Answer
  | .put raw state now order => ((put sum256 s raw state now order).1, .put (put sum256 s raw state now order).2)
  | .consume raw provider now => ((consume sum256 s raw provider now).1, .consume (consume sum256 s raw provider now).2)

/-- A map is ranged over entry by entry, in any order. -/
def Call.Ranges (s : Store) : Call → Prop
  | .put _ _ _ order => order.Perm s
  | .consume .. => True

/-- A call, its answer, and the store it found. -/
structure Event where
  before : Store
  call : Call
  answer : Answer

inductive Run : List Event → Store → Prop
  | empty : Run [] []
  | call {h s} (c : Call) : Run h s → c.Ranges s → Run (h ++ [⟨s, c, (serve sum256 s c).2⟩]) (serve sum256 s c).1

end Calls

/-! ## What is promised -/

/-- A `Put` that stores, or a `Consume` that finds. -/
def Event.Succeeds (e : Event) : Prop := e.answer = .put true ∨ ∃ state, e.answer = .consume (some state)

/-- The last call of `h` with the raw value to succeed is a `Put` of this state. -/
def LatestPut (h : List Event) (raw : String) (state : TransientAuthState) : Prop :=
  ∃ pre e post, h = pre ++ e :: post ∧ (∃ now order, e.call = .put raw state now order) ∧ e.answer = .put true ∧
    ∀ x ∈ post, x.call.raw = raw → ¬x.Succeeds

/-- Each `Consume` that succeeds returns the state of the latest `Put`, and no other `Consume` has had it. -/
def Event.SingleUse (h : List Event) (e : Event) : Prop :=
  ∀ raw provider now state, e.call = .consume raw provider now → e.answer = .consume (some state) →
    state.provider = provider ∧ now < state.expiresAt ∧ LatestPut h raw state

def unexpired (s : Store) (now : Int) : List Entry := s.filter fun c => now < c.2.expiresAt

section Evictions
variable (sum256 : String → Key)

/-- An unexpired entry of another flow is removed only if the others alone fill the store, and then the one that expires
first. -/
def Event.SparesOthers (e : Event) : Prop :=
  ∀ raw state now order, e.call = .put raw state now order →
    ∀ c ∈ e.before, c.1 ≠ sum256 raw → now < c.2.expiresAt → c ∉ (put sum256 e.before raw state now order).1 →
      maxTransientAuthStates ≤ (unexpired (drop (sum256 raw) e.before) now).length ∧
        ∀ x ∈ unexpired (drop (sum256 raw) e.before) now, c.2.expiresAt ≤ x.2.expiresAt

/-- `c` is the first in `l` of those that expire first. -/
def FirstToExpire (c : Entry) (l : List Entry) : Prop :=
  ∃ l₁ l₂, l = l₁ ++ c :: l₂ ∧ (∀ x ∈ l₁, c.2.expiresAt < x.2.expiresAt) ∧ ∀ x ∈ l₂,
    c.2.expiresAt ≤ x.2.expiresAt

/-- A `Put` that is not refused finds room, or a full store with no entry that expires at 0, in which its own key has no
unexpired entry or one that is met first among those which expire first. -/
def Event.Fits (e : Event) : Prop :=
  ∀ raw state now order, e.call = .put raw state now order → raw ≠ "" → state.provider ≠ "" →
    now < state.expiresAt → (unexpired order now).length < maxTransientAuthStates ∨
      (∀ c ∈ unexpired order now, c.2.expiresAt ≠ 0) ∧
        ∀ c ∈ unexpired order now, c.1 = sum256 raw → FirstToExpire c (unexpired order now)

end Evictions

structure Kept (sum256 : String → Key) (h : List Event) (s : Store) : Prop where
  singleUse : ∀ pre e post, h = pre ++ e :: post → e.SingleUse pre
  bounded : s.length ≤ maxTransientAuthStates
  bounded_before : ∀ e ∈ h, e.before.length ≤ maxTransientAuthStates
  sparesOthers : ∀ e ∈ h, e.SparesOthers sum256

/-! ## The sweep -/

section Sweep
variable {s : Store} {order : List Entry} {now : Int}

theorem keyed_unexpired (hs : Keyed s) (now : Int) : Keyed (unexpired s now) := hs.sublist List.filter_sublist

theorem mem_unexpired {c : Entry} : c ∈ unexpired s now ↔ c ∈ s ∧ now < c.2.expiresAt := by simp [unexpired]

theorem entries_foldl_visit (w : Sweep) :
    (order.foldl (visit now) w).entries = w.entries.filter fun c => ∀ x ∈ order, x.2.expiresAt ≤ now →
      c.1 ≠ x.1 := by
  induction order generalizing w with
  | nil => simp
  | cons x l ih =>
    rw [List.foldl_cons, ih]
    by_cases hx : x.2.expiresAt ≤ now
    · have hw : (visit now w x).entries = drop x.1 w.entries := by simp [visit, hx]
      rw [hw, drop, List.filter_filter]
      refine List.filter_congr fun c _ => ?_
      simp only [List.mem_cons, forall_eq_or_imp, hx, forall_const, Bool.decide_and]
      rw [Bool.and_comm]
    · have hw : (visit now w x).entries = w.entries := by
        unfold visit
        split_ifs <;> rfl
      rw [hw]
      refine List.filter_congr fun c _ => ?_
      simp [hx]

theorem sweep_entries (hs : Keyed s) (ho : order.Perm s) : (sweep s order now).entries = unexpired s now := by
  rw [sweep, entries_foldl_visit]
  refine List.filter_congr fun c hc => ?_
  have : (∀ x ∈ order, x.2.expiresAt ≤ now → c.1 ≠ x.1) ↔ now < c.2.expiresAt := by
    constructor
    · intro h
      by_contra hlt
      exact h c (ho.mem_iff.2 hc) (by omega) rfl
    · intro hlt x hx hexp hk
      have hxc := hs.eq hc (ho.mem_iff.1 hx) hk
      subst hxc
      omega
  simpa using this

/-- The entry found so far. -/
def Sweep.Oldest (w : Sweep) (l : List Entry) : Prop :=
  l = [] ∧ w.oldestExpiry = 0 ∨ ∃ c, FirstToExpire c l ∧ w.oldestKey = c.1 ∧ w.oldestExpiry = c.2.expiresAt

theorem Sweep.Oldest.visit {w : Sweep} {l : List Entry} (h : w.Oldest l) (hzero : ∀ c ∈ l, c.2.expiresAt ≠ 0)
    (c : Entry) (hc : now < c.2.expiresAt) : (visit now w c).Oldest (l ++ [c]) := by
  have hexp : ¬c.2.expiresAt ≤ now := by omega
  rcases h with ⟨rfl, h0⟩ | ⟨b, ⟨l₁, l₂, rfl, hl₁, hl₂⟩, hkey, hb⟩
  · refine .inr ⟨c, ⟨[], [], by simp, by simp, by simp⟩, ?_⟩
    simp [TransientAuth.visit, hexp, h0]
  · have hb0 : w.oldestExpiry ≠ 0 := by
      rw [hb]
      exact hzero b (by simp)
    by_cases hlt : c.2.expiresAt < b.2.expiresAt
    · refine .inr ⟨c, ⟨l₁ ++ b :: l₂, [], by simp, ?_, by simp⟩, ?_⟩
      · intro x hx
        rcases List.mem_append.1 hx with hx | hx
        · have := hl₁ x hx
          omega
        · rcases List.mem_cons.1 hx with rfl | hx
          · exact hlt
          · have := hl₂ x hx
            omega
      · simp [TransientAuth.visit, hexp, hb, hlt]
    · have hw : TransientAuth.visit now w c = w := by
        rw [hb] at hb0
        simp [TransientAuth.visit, hexp, hb, hlt, hb0]
      rw [hw]
      refine .inr ⟨b, ⟨l₁, l₂ ++ [c], by simp, hl₁, ?_⟩, hkey, hb⟩
      intro x hx
      rcases List.mem_append.1 hx with hx | hx
      · exact hl₂ x hx
      · obtain rfl := List.mem_singleton.1 hx
        omega

theorem oldest_foldl (w : Sweep) (hw : w.oldestExpiry = 0) (hzero : ∀ c ∈ unexpired order now, c.2.expiresAt ≠ 0) :
    (order.foldl (visit now) w).Oldest (unexpired order now) := by
  induction order using List.reverseRecOn with
  | nil => exact .inl ⟨rfl, hw⟩
  | append_singleton l c ih =>
    have hl : ∀ x ∈ unexpired l now, x.2.expiresAt ≠ 0 := by
      intro x hx
      refine hzero x ?_
      simp only [unexpired, List.filter_append, List.mem_append]
      exact .inl hx
    have hold := ih hl
    rw [List.foldl_append]
    by_cases hc : now < c.2.expiresAt
    · have hsplit : unexpired (l ++ [c]) now = unexpired l now ++ [c] := by simp [unexpired, hc]
      rw [hsplit]
      exact hold.visit hl c hc
    · have hsplit : unexpired (l ++ [c]) now = unexpired l now := by simp [unexpired, hc]
      have hexp : c.2.expiresAt ≤ now := by omega
      rw [hsplit]
      simpa [Sweep.Oldest, visit, hexp] using hold

theorem sweep_oldest (hzero : ∀ c ∈ unexpired order now, c.2.expiresAt ≠ 0) (hne : unexpired order now ≠ []) :
    ∃ c, FirstToExpire c (unexpired order now) ∧ (sweep s order now).oldestKey = c.1 := by
  rcases oldest_foldl ⟨s, 0, 0⟩ rfl hzero with ⟨h, -⟩ | ⟨c, hc, hkey, -⟩
  · exact absurd h hne
  · exact ⟨c, hc, hkey⟩

theorem oldestKey_mem (hne : unexpired order now ≠ []) :
    ∃ c ∈ unexpired order now, (sweep s order now).oldestKey = c.1 := by
  have hgen : ∀ (l : List Entry) (w : Sweep), (∃ c ∈ unexpired l now, (l.foldl (visit now) w).oldestKey = c.1) ∨
      (l.foldl (visit now) w).oldestKey = w.oldestKey ∧ (w.oldestExpiry = 0 → unexpired l now = []) := by
    intro l
    induction l with
    | nil => exact fun w => .inr ⟨rfl, fun _ => rfl⟩
    | cons x l ih =>
      intro w
      by_cases hx : now < x.2.expiresAt
      · have hcons : unexpired (x :: l) now = x :: unexpired l now := by simp [unexpired, hx]
        have hexp : ¬x.2.expiresAt ≤ now := by omega
        rw [List.foldl_cons, hcons]
        rcases ih (visit now w x) with ⟨c, hc, hkey⟩ | ⟨hkey, -⟩
        · exact .inl ⟨c, List.mem_cons_of_mem _ hc, hkey⟩
        · by_cases htake : w.oldestExpiry = 0 ∨ x.2.expiresAt < w.oldestExpiry
          · exact .inl ⟨x, List.mem_cons_self, by rw [hkey]; simp [visit, hexp, htake]⟩
          · refine .inr ⟨by rw [hkey]; simp [visit, hexp, htake], fun h0 => absurd (.inl h0) htake⟩
      · have hcons : unexpired (x :: l) now = unexpired l now := by simp [unexpired, hx]
        have hexp : x.2.expiresAt ≤ now := by omega
        rw [List.foldl_cons, hcons]
        simpa [visit, hexp] using ih (visit now w x)
  rcases hgen order ⟨s, 0, 0⟩ with h | ⟨-, h⟩
  · exact h
  · exact absurd (h rfl) hne

end Sweep

/-! ## The calls -/

section Calls
variable {sum256 : String → Key} {s : Store} {raw provider : String} {state : TransientAuthState} {now : Int}
  {order : List Entry}

theorem put_refused (h : raw = "" ∨ state.provider = "" ∨ state.expiresAt ≤ now) :
    put sum256 s raw state now order = (s, false) := by simp [put, h]

theorem put_accepted (h : ¬(raw = "" ∨ state.provider = "" ∨ state.expiresAt ≤ now)) :
    (put sum256 s raw state now order).2 = true := by simp [put, h]

theorem mem_put (hs : Keyed s) (ho : order.Perm s)
    (h : ¬(raw = "" ∨ state.provider = "" ∨ state.expiresAt ≤ now)) {c : Entry} :
    c ∈ (put sum256 s raw state now order).1 ↔ c = (sum256 raw, state) ∨ c ∈ s ∧ now < c.2.expiresAt ∧
      c.1 ≠ sum256 raw ∧ (maxTransientAuthStates ≤ (unexpired s now).length → c.1 ≠ (sweep s order now).oldestKey) := by
  simp only [put, if_neg h, mem_assign, sweep_entries hs ho]
  refine or_congr Iff.rfl ?_
  by_cases hfull : maxTransientAuthStates ≤ (unexpired s now).length
  · simp only [hfull, if_true, mem_drop, mem_unexpired, forall_const]
    tauto
  · simp only [hfull, if_false, mem_unexpired, false_imp_iff, and_true]
    tauto

theorem put_keyed (hs : Keyed s) (ho : order.Perm s) : Keyed (put sum256 s raw state now order).1 := by
  by_cases h : raw = "" ∨ state.provider = "" ∨ state.expiresAt ≤ now
  · rwa [put_refused h]
  · have hlive := keyed_unexpired hs now
    simp only [put, if_neg h, sweep_entries hs ho]
    split_ifs
    · exact (hlive.drop _).assign _ _
    · exact hlive.assign _ _

theorem put_length (hs : Keyed s) (ho : order.Perm s) (hlen : s.length ≤ maxTransientAuthStates) :
    (put sum256 s raw state now order).1.length ≤ maxTransientAuthStates := by
  by_cases h : raw = "" ∨ state.provider = "" ∨ state.expiresAt ≤ now
  · rwa [put_refused h]
  · simp only [put, if_neg h, sweep_entries hs ho, length_assign]
    have hlive : (unexpired s now).length ≤ s.length := List.length_filter_le _ _
    split_ifs with hfull
    · -- the evicted entry is one of the unexpired
      have hne : unexpired order now ≠ [] := by
        intro hnil
        have hperm : (unexpired order now).length = (unexpired s now).length := (ho.filter _).length_eq
        rw [hnil] at hperm
        rw [← hperm] at hfull
        exact absurd hfull (by decide)
      obtain ⟨c, hc, hkey⟩ := oldestKey_mem (s := s) hne
      have hcs : c ∈ unexpired s now := (ho.filter _).mem_iff.1 hc
      have hlt := (keyed_unexpired hs now).length_drop_of_mem hcs
      have hle := length_drop_le (sum256 raw) (drop c.1 (unexpired s now))
      rw [hkey]
      omega
    · have hle := length_drop_le (sum256 raw) (unexpired s now)
      omega

theorem consume_refused (h : raw = "" ∨ provider = "") :
    consume sum256 s raw provider now = (s, none) := by simp [consume, h]

theorem consume_store (h : ¬(raw = "" ∨ provider = "")) : (consume sum256 s raw provider now).1 = drop (sum256 raw) s := by
  simp [consume, h]

theorem consume_some (h : (consume sum256 s raw provider now).2 = some state) :
    (sum256 raw, state) ∈ s ∧ state.provider = provider ∧ now < state.expiresAt := by
  by_cases href : raw = "" ∨ provider = ""
  · simp [consume_refused href] at h
  · simp only [consume, if_neg href] at h
    cases hf : s.find? fun c => c.1 = sum256 raw with
    | none => simp [hf] at h
    | some c =>
      rw [hf] at h
      have hc := List.mem_of_find?_eq_some hf
      have hkey : c.1 = sum256 raw := by simpa using List.find?_some hf
      dsimp only at h
      split_ifs at h with hbad
      simp only [Option.some.injEq] at h
      subst h
      rw [not_or, not_not] at hbad
      refine ⟨?_, hbad.1, by omega⟩
      rwa [← hkey]

end Calls

/-! ## Every run -/

section Run
variable {sum256 : String → Key} {h : List Event} {s : Store}

/-- An entry is what the last successful call with its key has put. -/
def Held (sum256 : String → Key) (h : List Event) (c : Entry) : Prop :=
  ∃ pre e post raw, h = pre ++ e :: post ∧ sum256 raw = c.1 ∧ (∃ now order, e.call = .put raw c.2 now order) ∧
    e.answer = .put true ∧ ∀ x ∈ post, sum256 x.call.raw = c.1 → ¬x.Succeeds

theorem Held.snoc {c : Entry} (hc : Held sum256 h c) {e : Event} (he : sum256 e.call.raw = c.1 → ¬e.Succeeds) :
    Held sum256 (h ++ [e]) c := by
  obtain ⟨pre, p, post, raw, rfl, hraw, hcall, hok, hpost⟩ := hc
  refine ⟨pre, p, post ++ [e], raw, by simp, hraw, hcall, hok, ?_⟩
  intro x hx
  rcases List.mem_append.1 hx with hx | hx
  · exact hpost x hx
  · obtain rfl := List.mem_singleton.1 hx
    exact he

structure Inv (sum256 : String → Key) (h : List Event) (s : Store) : Prop where
  keyed : Keyed s
  bounded : s.length ≤ maxTransientAuthStates
  held : ∀ c ∈ s, Held sum256 h c

theorem Inv.put (hi : Inv sum256 h s) {raw : String} {state : TransientAuthState} {now : Int} {order : List Entry}
    (ho : order.Perm s) :
    Inv sum256 (h ++ [⟨s, .put raw state now order, (serve sum256 s (.put raw state now order)).2⟩])
      (put sum256 s raw state now order).1 := by
  refine ⟨put_keyed hi.keyed ho, put_length hi.keyed ho hi.bounded, fun c hc => ?_⟩
  by_cases href : raw = "" ∨ state.provider = "" ∨ state.expiresAt ≤ now
  · rw [put_refused href] at hc
    refine (hi.held c hc).snoc fun _ hsucc => ?_
    simp [Event.Succeeds, serve, put_refused href] at hsucc
  · rcases (mem_put hi.keyed ho href).1 hc with rfl | ⟨hcs, -, hkey, -⟩
    · exact ⟨h, _, [], raw, rfl, rfl, ⟨now, order, rfl⟩, by simp [serve, put_accepted href], by simp⟩
    · exact (hi.held c hcs).snoc fun hk => absurd hk.symm hkey

theorem Inv.consume (hi : Inv sum256 h s) (raw provider : String) (now : Int) :
    Inv sum256 (h ++ [⟨s, .consume raw provider now, (serve sum256 s (.consume raw provider now)).2⟩])
      (consume sum256 s raw provider now).1 := by
  by_cases href : raw = "" ∨ provider = ""
  · rw [consume_refused href]
    refine ⟨hi.keyed, hi.bounded, fun c hc => (hi.held c hc).snoc fun _ hsucc => ?_⟩
    simp [Event.Succeeds, serve, consume_refused href] at hsucc
  · rw [consume_store href]
    refine ⟨hi.keyed.drop _, le_trans (length_drop_le _ _) hi.bounded, fun c hc => ?_⟩
    rw [mem_drop] at hc
    exact (hi.held c hc.1).snoc fun hk => absurd hk.symm hc.2

theorem Run.inv (hr : Run sum256 h s) : Inv sum256 h s := by
  induction hr with
  | empty => exact ⟨.nil, by simp, by simp⟩
  | call c _ hc ih =>
    cases c with
    | put raw state now order => exact ih.put hc
    | consume raw provider now => exact ih.consume raw provider now

theorem Run.before (hr : Run sum256 h s) {pre post : List Event} {e : Event} (he : h = pre ++ e :: post) :
    Run sum256 pre e.before ∧ e.call.Ranges e.before ∧ e.answer = (serve sum256 e.before e.call).2 := by
  induction hr generalizing post with
  | empty => simp at he
  | @call h s c hr hc ih =>
    rcases List.eq_nil_or_concat post with rfl | ⟨post, x, rfl⟩
    · obtain ⟨rfl, hx⟩ := List.append_inj' he rfl
      obtain rfl := (List.cons.inj hx).1
      exact ⟨hr, hc, rfl⟩
    · rw [List.concat_eq_append, ← List.cons_append, ← List.append_assoc] at he
      obtain ⟨rfl, -⟩ := List.append_inj' he rfl
      exact ih rfl

theorem Run.of_mem (hr : Run sum256 h s) {e : Event} (he : e ∈ h) :
    ∃ pre, Run sum256 pre e.before ∧ e.call.Ranges e.before ∧ e.answer = (serve sum256 e.before e.call).2 := by
  obtain ⟨pre, post, hh⟩ := List.append_of_mem he
  exact ⟨pre, hr.before hh⟩

/-- Two raw values of the run with the same digest are the same. -/
def Separate (sum256 : String → Key) (h : List Event) : Prop :=
  ∀ e ∈ h, ∀ e' ∈ h, sum256 e.call.raw = sum256 e'.call.raw → e.call.raw = e'.call.raw

theorem Run.singleUse (hr : Run sum256 h s) (hsep : Separate sum256 h) {pre post : List Event} {e : Event}
    (he : h = pre ++ e :: post) : e.SingleUse pre := by
  intro raw provider now state hcall hans
  obtain ⟨hpre, -, hanswer⟩ := hr.before he
  rw [hanswer, hcall] at hans
  simp only [serve, Answer.consume.injEq] at hans
  obtain ⟨hmem, hprov, hexp⟩ := consume_some hans
  obtain ⟨p, q, r, raw', rfl, hraw, ⟨now', order, hput⟩, hok, hpost⟩ := hpre.inv.held _ hmem
  have he_mem : e ∈ h := by simp [he]
  have hmem_of : ∀ x ∈ q :: r, x ∈ h := by
    intro x hx
    rw [he]
    simp only [List.append_assoc, List.cons_append, List.mem_append]
    rcases List.mem_cons.1 hx with rfl | hx <;> simp [*]
  have hraw_eq : raw' = raw := by
    have := hsep q (hmem_of q List.mem_cons_self) e he_mem
    rw [hput, hcall] at this
    exact this hraw
  subst hraw_eq
  refine ⟨hprov, hexp, p, q, r, rfl, ⟨now', order, hput⟩, hok, fun x hx hxraw => hpost x hx ?_⟩
  rw [hxraw]

end Run

/-! ## What is evicted -/

section Evictions
variable {sum256 : String → Key} {s : Store}

theorem FirstToExpire.mem {c : Entry} {l : List Entry} (h : FirstToExpire c l) : c ∈ l := by
  obtain ⟨l₁, l₂, rfl, -, -⟩ := h
  simp

theorem FirstToExpire.le {c x : Entry} {l : List Entry} (h : FirstToExpire c l) (hx : x ∈ l) :
    c.2.expiresAt ≤ x.2.expiresAt := by
  obtain ⟨l₁, l₂, rfl, hl₁, hl₂⟩ := h
  rcases List.mem_append.1 hx with hx | hx
  · exact (hl₁ x hx).le
  · rcases List.mem_cons.1 hx with rfl | hx
    · exact le_rfl
    · exact hl₂ x hx

theorem FirstToExpire.eq {c d : Entry} {l : List Entry} (hc : FirstToExpire c l) (hd : FirstToExpire d l) : c = d := by
  -- whichever stands later in the list would have to expire earlier than the other
  have hhalf : ∀ {c d : Entry} {l₁ l₂ m₁ m₂ t : List Entry}, (∀ x ∈ l₂, c.2.expiresAt ≤ x.2.expiresAt) →
      (∀ x ∈ m₁, d.2.expiresAt < x.2.expiresAt) → m₁ = l₁ ++ t → c :: l₂ = t ++ d :: m₂ → c = d := by
    intro c d l₁ l₂ m₁ m₂ t hl hm hmt hct
    cases t with
    | nil => exact (List.cons.inj hct).1
    | cons x t =>
      obtain ⟨rfl, rfl⟩ := List.cons.inj hct
      have h₁ := hl d (by simp)
      have h₂ := hm c (by simp [hmt])
      omega
  obtain ⟨l₁, l₂, rfl, hl₁, hl₂⟩ := hc
  obtain ⟨m₁, m₂, heq, hm₁, hm₂⟩ := hd
  rcases List.append_eq_append_iff.1 heq with ⟨t, hm, hl⟩ | ⟨t, hl, hm⟩
  · exact hhalf hl₂ hm₁ hm hl
  · exact (hhalf hm₂ hl₁ hl hm).symm

theorem unexpired_perm {order : List Entry} (ho : order.Perm s) (now : Int) : (unexpired order now).Perm (unexpired s now) :=
  ho.filter _

variable {e : Event}

theorem Event.Fits.sparesOthers (hs : Keyed e.before) (ho : e.call.Ranges e.before) (hf : e.Fits sum256) :
    e.SparesOthers sum256 := by
  intro raw state now order hcall c hc hkey hlive hgone
  rw [hcall] at ho
  have hperm : order.Perm e.before := ho
  have hacc : ¬(raw = "" ∨ state.provider = "" ∨ state.expiresAt ≤ now) := by
    intro href
    rw [put_refused href] at hgone
    exact hgone hc
  have hstays : ¬(maxTransientAuthStates ≤ (unexpired e.before now).length →
      c.1 ≠ (sweep e.before order now).oldestKey) := by
    intro hstay
    exact hgone ((mem_put hs hperm hacc).2 (.inr ⟨hc, hlive, hkey, hstay⟩))
  obtain ⟨hfull, hold⟩ := not_forall.1 hstays
  rw [not_not] at hold
  have hlen := (unexpired_perm hperm now).length_eq
  obtain ⟨hraw, hprov, hexp⟩ : raw ≠ "" ∧ state.provider ≠ "" ∧ now < state.expiresAt := by
    simpa only [not_or, not_le, ne_eq] using hacc
  rcases hf raw state now order hcall hraw hprov hexp with hroom | ⟨hzero, hown⟩
  · omega
  · have hne : unexpired order now ≠ [] := by
      intro hnil
      rw [hnil] at hlen
      rw [← hlen] at hfull
      exact absurd hfull (by decide)
    obtain ⟨b, hb, hbkey⟩ := sweep_oldest (s := e.before) hzero hne
    have hbs : b ∈ unexpired e.before now := (unexpired_perm hperm now).mem_iff.1 hb.mem
    have hbc : b = c := hs.eq (mem_unexpired.1 hbs).1 hc (by rw [hold, hbkey])
    subst hbc
    -- the key of the new state has no unexpired entry, since that one would be evicted
    have hfree : unexpired (drop (sum256 raw) e.before) now = unexpired e.before now := by
      rw [unexpired, drop, List.filter_filter]
      refine List.filter_congr fun x hx => ?_
      by_cases hxl : now < x.2.expiresAt
      · have hxk : x.1 ≠ sum256 raw := by
          intro hxk
          have hxo := (unexpired_perm hperm now).mem_iff.2 (mem_unexpired.2 ⟨hx, hxl⟩)
          have := (hown x hxo hxk).eq hb
          subst this
          exact hkey hxk
        simp [hxl, hxk]
      · simp [hxl]
    rw [hfree]
    exact ⟨hfull, fun x hx => hb.le ((unexpired_perm hperm now).mem_iff.2 hx)⟩

theorem Event.SparesOthers.fits (hs : Keyed e.before) (hlen : e.before.length ≤ maxTransientAuthStates)
    (ho : e.call.Ranges e.before) (hnow : 0 ≤ e.call.now) (hsp : e.SparesOthers sum256) : e.Fits sum256 := by
  intro raw state now order hcall hraw hprov hexp
  rw [hcall] at ho hnow
  have hperm : order.Perm e.before := ho
  have h0 : 0 ≤ now := hnow
  have hacc : ¬(raw = "" ∨ state.provider = "" ∨ state.expiresAt ≤ now) := by
    rw [not_or, not_or]
    exact ⟨hraw, hprov, by omega⟩
  have hlive := (unexpired_perm hperm now).length_eq
  refine or_iff_not_imp_left.2 fun hfull => ?_
  have hzero : ∀ c ∈ unexpired order now, c.2.expiresAt ≠ 0 := by
    intro c hc
    have := (mem_unexpired.1 hc).2
    omega
  refine ⟨hzero, fun c hc hck => ?_⟩
  obtain ⟨b, hb, hbkey⟩ := sweep_oldest (s := e.before) hzero (List.ne_nil_of_mem hc)
  have hbs := mem_unexpired.1 ((unexpired_perm hperm now).mem_iff.1 hb.mem)
  have hcs := (unexpired_perm hperm now).mem_iff.1 hc
  by_cases hbk : b.1 = sum256 raw
  · have hbc : b = c := hs.eq hbs.1 (mem_unexpired.1 hcs).1 (hbk.trans hck.symm)
    rwa [← hbc]
  · -- an entry of another flow goes, and without the replaced one the store is not full
    exfalso
    have hgone : b ∉ (put sum256 e.before raw state now order).1 := by
      rw [mem_put hs hperm hacc]
      rintro (rfl | ⟨-, -, -, hstay⟩)
      · exact hbk rfl
      · exact hstay (by omega) hbkey.symm
    have hfew := (hsp raw state now order hcall b hbs.1 hbk hbs.2 hgone).1
    have hcomm : unexpired (drop (sum256 raw) e.before) now = drop (sum256 raw) (unexpired e.before now) := by
      simp only [unexpired, drop, List.filter_filter]
      exact List.filter_congr fun x _ => Bool.and_comm _ _
    have hlt := (keyed_unexpired hs now).length_drop_of_mem hcs
    rw [hck, ← hcomm] at hlt
    have hle : (unexpired e.before now).length ≤ e.before.length := List.length_filter_le _ _
    omega

end Evictions

/-- In every run the states are single use and bounded; flows spare each other where every `Put` fits, and if the clock is
never negative, only there. -/
theorem external_login_states {sum256 : String → Key} {h : List Event} {s : Store} (hr : Run sum256 h s)
    (hsep : Separate sum256 h) :
    ((∀ e ∈ h, e.Fits sum256) → Kept sum256 h s) ∧
      ((∀ e ∈ h, 0 ≤ e.call.now) → Kept sum256 h s → ∀ e ∈ h, e.Fits sum256) := by
  refine ⟨fun hf => ⟨fun pre e post he => hr.singleUse hsep he, hr.inv.bounded, fun e he => ?_, fun e he => ?_⟩,
    fun hnow hk e he => ?_⟩
  · obtain ⟨pre, hpre, -, -⟩ := hr.of_mem he
    exact hpre.inv.bounded
  · obtain ⟨pre, hpre, ho, -⟩ := hr.of_mem he
    exact (hf e he).sparesOthers hpre.inv.keyed ho
  · obtain ⟨pre, hpre, ho, -⟩ := hr.of_mem he
    exact (hk.sparesOthers e he).fits hpre.inv.keyed hpre.inv.bounded ho (hnow e he)

/-- A digest for the examples. -/
def lengthKey (raw : String) : Key := BitVec.ofNat 256 raw.length

def github (expiresAt : Int) : TransientAuthState := ⟨"github", "", "/", "", "", "", "", "", expiresAt⟩

/-! ## A full store -/

/-- The `n`-th of the flows that fill the store, expiring in this order. -/
def flow (n : Nat) : String := String.ofList (List.replicate (n + 1) 'a')

theorem flow_ne (n : Nat) : flow n ≠ "" := by
  intro h
  have := congrArg String.length h
  simp [flow] at this

def full : Nat → Store
  | 0 => []
  | n + 1 => (lengthKey (flow n), github (n + 1)) :: full n

theorem length_full (n : Nat) : (full n).length = n := by
  induction n with
  | zero => rfl
  | succ n ih => simp [full, ih]

theorem mem_full {n : Nat} {c : Entry} : c ∈ full n ↔ ∃ i < n, c = (lengthKey (flow i), github (i + 1)) := by
  induction n with
  | zero => simp [full]
  | succ n ih =>
    rw [full, List.mem_cons, ih]
    constructor
    · rintro (rfl | ⟨i, hi, rfl⟩)
      · exact ⟨n, by omega, rfl⟩
      · exact ⟨i, by omega, rfl⟩
    · rintro ⟨i, hi, rfl⟩
      by_cases hin : i = n
      · exact .inl (by rw [hin])
      · exact .inr ⟨i, by omega, rfl⟩

theorem unexpired_full (n : Nat) : unexpired (full n) 0 = full n := by
  refine List.filter_eq_self.2 fun c hc => ?_
  obtain ⟨i, -, rfl⟩ := mem_full.1 hc
  refine decide_eq_true (?_ : (0 : Int) < i + 1)
  omega

theorem lengthKey_flow_inj {i j : Nat} (hi : i ≤ 2048) (hj : j ≤ 2048) (h : lengthKey (flow i) = lengthKey (flow j)) :
    i = j := by
  have hnat := congrArg BitVec.toNat h
  simp only [lengthKey, flow, String.length_ofList, List.length_replicate, BitVec.toNat_ofNat] at hnat
  rw [Nat.mod_eq_of_lt (by omega), Nat.mod_eq_of_lt (by omega)] at hnat
  omega

theorem put_full {n : Nat} (hn : n < 2048) {h : List Event} (hr : Run lengthKey h (full n)) :
    Run lengthKey (h ++ [⟨full n, .put (flow n) (github (n + 1)) 0 (full n), .put true⟩]) (full (n + 1)) := by
  have hs := hr.inv.keyed
  have hacc : ¬(flow n = "" ∨ (github (n + 1)).provider = "" ∨ (github (n + 1)).expiresAt ≤ 0) := by
    simp only [flow_ne n, github, false_or, not_or]
    exact ⟨by decide, by omega⟩
  have hput : put lengthKey (full n) (flow n) (github (n + 1)) 0 (full n) = (full (n + 1), true) := by
    have hroom : ¬maxTransientAuthStates ≤ (full n).length := by
      rw [length_full, maxTransientAuthStates]
      omega
    have hnew : drop (lengthKey (flow n)) (full n) = full n := by
      refine List.filter_eq_self.2 fun c hc => ?_
      obtain ⟨i, hi, rfl⟩ := mem_full.1 hc
      refine decide_eq_true fun hk => ?_
      have := lengthKey_flow_inj (by omega) hn.le hk
      omega
    simp only [put, if_neg hacc, sweep_entries hs (List.Perm.refl _), unexpired_full, if_neg hroom, assign, hnew, full]
  have hstep := hr.call (.put (flow n) (github (n + 1)) 0 (full n)) (List.Perm.refl _)
  simpa only [serve, hput] using hstep

theorem run_full (n : Nat) (hn : n ≤ 2048) :
    ∃ h, Run lengthKey h (full n) ∧ ∀ e ∈ h, e.before.length < 2048 ∧ e.call.now = 0 ∧ ∃ i < 2048,
      e.call.raw = flow i := by
  induction n with
  | zero => exact ⟨[], .empty, by simp⟩
  | succ n ih =>
    obtain ⟨h, hr, hh⟩ := ih (by omega)
    refine ⟨_, put_full (by omega) hr, fun e he => ?_⟩
    rcases List.mem_append.1 he with he | he
    · exact hh e he
    · obtain rfl := List.mem_singleton.1 he
      exact ⟨by rw [length_full]; omega, rfl, n, by omega, rfl⟩

/-- 2048 flows have begun; another one begins, and is completed. -/
theorem external_login_states_full :
    ∃ h e s, e.before.length = 2048 ∧ e.answer = .put true ∧
      Kept lengthKey (h ++ [e] ++ [⟨s, .consume (flow 2048) "github" 0, .consume (some (github 5000))⟩])
        (drop (lengthKey (flow 2048)) s) := by
  obtain ⟨h, hr, hh⟩ := run_full 2048 le_rfl
  obtain ⟨rest, hput⟩ : ∃ rest, put lengthKey (full 2048) (flow 2048) (github 5000) 0 (full 2048) =
      (assign (lengthKey (flow 2048)) (github 5000) rest, true) :=
    ⟨_, if_neg (by simp only [flow_ne 2048, github, false_or, not_or]; exact ⟨by decide, by decide⟩)⟩
  have hbegun := hr.call (.put (flow 2048) (github 5000) 0 (full 2048)) (List.Perm.refl _)
  simp only [serve, hput] at hbegun
  set s := assign (lengthKey (flow 2048)) (github 5000) rest with hs
  have hconsume : consume lengthKey s (flow 2048) "github" 0 = (drop (lengthKey (flow 2048)) s, some (github 5000)) := by
    simp [consume, flow_ne 2048, hs, assign, github]
  have hdone := hbegun.call (.consume (flow 2048) "github" 0) trivial
  simp only [serve, hconsume] at hdone
  set e : Event := ⟨full 2048, .put (flow 2048) (github 5000) 0 (full 2048), .put true⟩ with he
  set e' : Event := ⟨s, .consume (flow 2048) "github" 0, .consume (some (github 5000))⟩ with he'
  have hall : ∀ x ∈ h ++ [e] ++ [e'], ∃ i ≤ 2048, x.call.raw = flow i := by
    intro x hx
    simp only [List.mem_append, List.mem_singleton] at hx
    rcases hx with (hx | rfl) | rfl
    · obtain ⟨-, -, i, hi, hraw⟩ := hh x hx
      exact ⟨i, hi.le, hraw⟩
    · exact ⟨2048, le_rfl, rfl⟩
    · exact ⟨2048, le_rfl, rfl⟩
  refine ⟨h, e, s, length_full 2048, rfl, (external_login_states hdone ?_).1 ?_⟩
  · intro x hx y hy hxy
    obtain ⟨i, hi, hxi⟩ := hall x hx
    obtain ⟨j, hj, hyj⟩ := hall y hy
    rw [hxi, hyj] at hxy ⊢
    rw [lengthKey_flow_inj hi hj hxy]
  · intro x hx raw state now order hcall _ _ _
    simp only [List.mem_append, List.mem_singleton] at hx
    rcases hx with (hx | rfl) | rfl
    · -- there was room
      obtain ⟨pre, -, ho, -⟩ := hr.of_mem hx
      rw [hcall] at ho
      refine .inl (lt_of_le_of_lt (List.length_filter_le _ _) ?_)
      rw [show order.length = x.before.length from List.Perm.length_eq ho]
      exact (hh x hx).1
    · -- and then not, but the key is a new one
      obtain ⟨rfl, rfl, rfl, rfl⟩ := Call.put.inj hcall
      rw [unexpired_full]
      refine .inr ⟨fun c hc => ?_, fun c hc hk => ?_⟩
      · obtain ⟨i, -, rfl⟩ := mem_full.1 hc
        simp only [github]
        omega
      · obtain ⟨i, hi, rfl⟩ := mem_full.1 hc
        have := lengthKey_flow_inj hi.le le_rfl hk
        omega
    · simp [he'] at hcall

/-- 2048 flows have begun; the one that began last begins anew, and the first one is lost. -/
theorem replaced_state_evicts_another : ∃ h s, Run lengthKey h s ∧ Separate lengthKey h ∧
    h.Pairwise (fun e e' => e.call.now ≤ e'.call.now) ∧ ¬Kept lengthKey h s := by
  obtain ⟨h, hr, hh⟩ := run_full 2048 le_rfl
  have hlast := hr.call (.put (flow 2047) (github 5000) 0 (full 2048)) (List.Perm.refl _)
  set e : Event := ⟨full 2048, .put (flow 2047) (github 5000) 0 (full 2048), _⟩ with he
  have hall : ∀ x ∈ h ++ [e], x.call.now = 0 ∧ ∃ i < 2048, x.call.raw = flow i := by
    intro x hx
    rcases List.mem_append.1 hx with hx | hx
    · exact (hh x hx).2
    · obtain rfl := List.mem_singleton.1 hx
      exact ⟨rfl, 2047, by omega, rfl⟩
  refine ⟨_, _, hlast, ?_, ?_, fun hk => ?_⟩
  · intro x hx y hy hxy
    obtain ⟨-, i, hi, hxi⟩ := hall x hx
    obtain ⟨-, j, hj, hyj⟩ := hall y hy
    rw [hxi, hyj] at hxy ⊢
    rw [lengthKey_flow_inj hi.le hj.le hxy]
  · refine List.pairwise_of_forall_mem_list fun x hx y hy => ?_
    rw [(hall x hx).1, (hall y hy).1]
  · have hfits := @Event.SparesOthers.fits lengthKey e hr.inv.keyed hr.inv.bounded (List.Perm.refl _) (le_refl 0)
      (hk.sparesOthers e (by simp))
    rcases hfits _ _ _ _ rfl (flow_ne _) (by decide) (by decide) with hroom | ⟨-, hown⟩
    · rw [unexpired_full, length_full] at hroom
      exact absurd hroom (by decide)
    · rw [unexpired_full] at hown
      have hlate := hown _ (mem_full.2 ⟨2047, by omega, rfl⟩) rfl
      have hfirst := hlate.le (mem_full.2 ⟨0, by omega, rfl⟩)
      simp only [github] at hfirst
      omega

end Renop.TransientAuth
