import Mathlib.Algebra.GroupWithZero.Nat
import Mathlib.Algebra.Ring.Int.Defs
import Mathlib.Data.List.Basic
import Mathlib.Logic.Relation

/-!
# Interleaved processes over a shared state

A `Proc σ L ε α` is a program of atomic steps over a shared state `σ`. A step has a label, and a verdict says
whether the call that it stands for fails; a failed call has no effect. `exec` runs a program alone under an
oracle for the verdicts, and `wp` is its weakest precondition over all verdicts of a kind.

A `System` interleaves the steps of several requests. Some requests take one common lock for their whole
duration. `Reach.keeps` is for all interleavings: what a request knows has to survive the steps of the others, so it is
stated for every later state.
-/

namespace Interleave

inductive Proc (σ L ε α : Type)
  | done (r : Except ε α)
  /-- `next` sees the state before the step. -/
  | step (label : L) (act : Bool → σ → σ) (next : Bool → σ → Proc σ L ε α)

namespace Proc
variable {σ L ε α β : Type}

def bind (p : Proc σ L ε α) (k : α → Proc σ L ε β) : Proc σ L ε β :=
  match p with
  | done (.ok a) => k a
  | done (.error e) => done (.error e)
  | step label act next => step label act fun fail s => (next fail s).bind k

instance : Monad (Proc σ L ε) where
  pure a := done (.ok a)
  bind := bind

def throw (e : ε) : Proc σ L ε α := done (.error e)

/-- An error becomes a value. -/
def attempt (p : Proc σ L ε α) : Proc σ L ε (Except ε α) :=
  match p with
  | done r => done (.ok r)
  | step label act next => step label act fun fail s => (next fail s).attempt

/-- A result that is known already. -/
def ofExcept (r : Except ε α) : Proc σ L ε α := done r

/-- One atomic call: `e` is the error of a call that fails, `f` may refuse on its own. -/
def call (label : L) (e : ε) (f : σ → Except ε (α × σ)) : Proc σ L ε α :=
  step label
    (fun fail s => if fail then s else match f s with
      | .ok (_, s') => s'
      | .error _ => s)
    fun fail s => done (if fail then .error e else (f s).map (·.1))

/-- A call that only reads. -/
def ask (label : L) (e : ε) (f : σ → Except ε α) : Proc σ L ε α := call label e fun s => (f s).map fun a => (a, s)

/-- A call that only writes. -/
def tell (label : L) (e : ε) (f : σ → Except ε σ) :
    Proc σ L ε Unit := call label e fun s => (f s).map fun s' => ((), s')

/-- One step that may do anything with its verdict. -/
def atomic (label : L) (f : Bool → σ → α × σ) : Proc σ L ε α :=
  step label (fun fail s => (f fail s).2) fun fail s => done (.ok (f fail s).1)

/-- A change that cannot fail. -/
def modify (label : L) (f : σ → σ) : Proc σ L ε Unit := step label (fun _ => f) fun _ _ => done (.ok ())

@[simp] theorem bind_eq (p : Proc σ L ε α) (k : α → Proc σ L ε β) : p >>= k = p.bind k := rfl

@[simp] theorem pure_eq (a : α) : (pure a : Proc σ L ε α) = done (.ok a) := rfl

/-! ### Running alone -/

def exec (fault : L → Bool) (p : Proc σ L ε α) (s : σ) : Except ε α × σ :=
  match p with
  | done r => (r, s)
  | step label act next => exec fault (next (fault label) s) (act (fault label) s)

/-- Every verdict that `allowed` admits leads to `Q`. -/
def wp (allowed : L → Bool → Prop) (p : Proc σ L ε α) (Q : Except ε α → σ → Prop) (s : σ) : Prop :=
  match p with
  | done r => Q r s
  | step label act next => ∀ fail, allowed label fail → wp allowed (next fail s) Q (act fail s)

section Exec
variable {fault : L → Bool} {s : σ}

@[simp] theorem exec_done (r : Except ε α) : exec fault (done r : Proc σ L ε α) s = (r, s) := rfl

@[simp] theorem exec_throw (e : ε) : exec fault (throw e : Proc σ L ε α) s = (.error e, s) := rfl

@[simp] theorem exec_ofExcept (r : Except ε α) : exec fault (ofExcept r : Proc σ L ε α) s = (r, s) := rfl

theorem exec_bind (p : Proc σ L ε α) (k : α → Proc σ L ε β) :
    exec fault (p.bind k) s = match exec fault p s with
      | (.ok a, s') => exec fault (k a) s'
      | (.error e, s') => (.error e, s') := by
  induction p generalizing s with
  | done r => cases r <;> rfl
  | step label act next ih => exact ih _ _

theorem exec_attempt (p : Proc σ L ε α) : exec fault p.attempt s = (.ok (exec fault p s).1, (exec fault p s).2) := by
  induction p generalizing s with
  | done r => rfl
  | step label act next ih => exact ih _ _

theorem exec_call (label : L) (e : ε) (f : σ → Except ε (α × σ)) :
    exec fault (call label e f) s =
      if fault label then (.error e, s) else match f s with
        | .ok (a, s') => (.ok a, s')
        | .error e => (.error e, s) := by
  unfold call
  simp only [exec]
  split
  · rfl
  · cases f s <;> rfl

theorem exec_tell (label : L) (e : ε) (f : σ → Except ε σ) :
    exec fault (tell label e f) s =
      if fault label then (.error e, s) else match f s with
        | .ok s' => (.ok (), s')
        | .error e => (.error e, s) := by
  unfold tell
  rw [exec_call]
  cases f s <;> rfl

theorem exec_ask (label : L) (e : ε) (f : σ → Except ε α) :
    exec fault (ask label e f) s = (if fault label then .error e else f s, s) := by
  unfold ask
  rw [exec_call]
  split
  · rfl
  · cases f s <;> rfl

@[simp] theorem exec_modify (label : L) (f : σ → σ) :
    exec fault (modify label f : Proc σ L ε Unit) s = (.ok (), f s) := rfl

/-! #### Taking a run that succeeded apart -/

theorem exec_bind_ok {p : Proc σ L ε α} {k : α → Proc σ L ε β} {b : β} {s' : σ}
    (h : exec fault (p.bind k) s = (.ok b, s')) :
    ∃ a s₁, exec fault p s = (.ok a, s₁) ∧ exec fault (k a) s₁ = (.ok b, s') := by
  rw [exec_bind] at h
  split at h
  · rename_i a s₁ hp
    exact ⟨a, s₁, hp, h⟩
  · cases h

theorem exec_ask_bind_ok {label : L} {e : ε} {f : σ → Except ε α} {k : α → Proc σ L ε β} {b : β} {s' : σ}
    (h : exec fault ((ask label e f).bind k) s = (.ok b, s')) : ∃ a, f s = .ok a ∧ exec fault (k a) s = (.ok b, s') := by
  obtain ⟨a, s₁, ha, h⟩ := exec_bind_ok h
  rw [exec_ask] at ha
  split at ha
  · cases ha
  · obtain ⟨hf, rfl⟩ := Prod.mk.inj ha
    exact ⟨a, hf, h⟩

theorem exec_ofExcept_bind_ok {r : Except ε α} {k : α → Proc σ L ε β} {b : β} {s' : σ}
    (h : exec fault ((ofExcept r : Proc σ L ε α).bind k) s = (.ok b, s')) :
      ∃ a, r = .ok a ∧ exec fault (k a) s = (.ok b, s') := by
  obtain ⟨a, s₁, ha, h⟩ := exec_bind_ok h
  obtain ⟨rfl, rfl⟩ := Prod.mk.inj ha
  exact ⟨a, rfl, h⟩

theorem exec_tell_ok {label : L} {e : ε} {f : σ → Except ε σ} {s' : σ}
    (h : exec fault (tell label e f) s = (.ok (), s')) :
    f s = .ok s' := by
  rw [exec_tell] at h
  split at h
  · cases h
  · cases hf : f s with
    | ok s₁ => rw [hf] at h; cases h; rfl
    | error e => rw [hf] at h; cases h

end Exec

section Wp
variable {allowed : L → Bool → Prop} {s : σ} {Q : Except ε α → σ → Prop}

@[simp] theorem wp_done (r : Except ε α) : wp allowed (done r) Q s ↔ Q r s := Iff.rfl

@[simp] theorem wp_throw (e : ε) : wp allowed (throw e) Q s ↔ Q (.error e) s := Iff.rfl

@[simp] theorem wp_ofExcept (r : Except ε α) : wp allowed (ofExcept r) Q s ↔ Q r s := Iff.rfl

theorem wp_mono {Q' : Except ε α → σ → Prop} {p : Proc σ L ε α} (hQ : ∀ r s, Q r s → Q' r s) (h : wp allowed p Q s) :
    wp allowed p Q' s := by
  induction p generalizing s with
  | done r => exact hQ _ _ h
  | step label act next ih => exact fun fail hf => ih _ _ (h fail hf)

theorem wp_bind {Q : Except ε β → σ → Prop} (p : Proc σ L ε α) (k : α → Proc σ L ε β) :
    wp allowed (p.bind k) Q s ↔ wp allowed p (fun r s => match r with
      | .ok a => wp allowed (k a) Q s
      | .error e => Q (.error e) s) s := by
  induction p generalizing s with
  | done r => cases r <;> rfl
  | step label act next ih => exact forall_congr' fun fail => imp_congr_right fun _ => ih _ _

theorem wp_attempt {Q : Except ε (Except ε α) → σ → Prop} (p : Proc σ L ε α) :
    wp allowed p.attempt Q s ↔ wp allowed p (fun r s => Q (.ok r) s) s := by
  induction p generalizing s with
  | done r => rfl
  | step label act next ih => exact forall_congr' fun fail => imp_congr_right fun _ => ih _ _

theorem wp_call {label : L} {e : ε} {f : σ → Except ε (α × σ)} (hfail : allowed label true → Q (.error e) s)
    (hok : ∀ a s', f s = .ok (a, s') → Q (.ok a) s') (herror : ∀ e, f s = .error e → Q (.error e) s) :
    wp allowed (call label e f) Q s := by
  intro fail hf
  cases fail with
  | true => exact hfail hf
  | false =>
    cases h : f s with
    | error e => simpa [wp, h, Except.map] using herror e h
    | ok r => simpa [wp, h, Except.map] using hok r.1 r.2 h

theorem wp_ask {label : L} {e : ε} {f : σ → Except ε α} (herror : ∀ e, Q (.error e) s)
    (hok : ∀ a, f s = .ok a → Q (.ok a) s) :
    wp allowed (ask label e f) Q s := by
  refine wp_call (fun _ => herror e) (fun a s' h => ?_) fun e _ => herror e
  cases hf : f s with
  | error e => simp [hf, Except.map] at h
  | ok b =>
    simp only [hf, Except.map, Except.ok.injEq, Prod.mk.injEq] at h
    obtain ⟨rfl, rfl⟩ := h
    exact hok b hf

theorem wp_tell {Q : Except ε Unit → σ → Prop} {label : L} {e : ε} {f : σ → Except ε σ}
    (hfail : allowed label true → Q (.error e) s) (hok : ∀ s', f s = .ok s' → Q (.ok ()) s')
    (herror : ∀ e, f s = .error e → Q (.error e) s) : wp allowed (tell label e f) Q s := by
  refine wp_call hfail (fun a s' h => ?_) fun e h => ?_
  · cases hf : f s with
    | error e => simp [hf, Except.map] at h
    | ok s₁ =>
      simp only [hf, Except.map, Except.ok.injEq, Prod.mk.injEq, true_and] at h
      exact h ▸ hok s₁ hf
  · cases hf : f s with
    | error e' =>
      simp only [hf, Except.map, Except.error.injEq] at h
      exact h ▸ herror e' hf
    | ok s₁ => simp [hf, Except.map] at h

theorem wp_modify {Q : Except ε Unit → σ → Prop} {label : L} {f : σ → σ} (h : Q (.ok ()) (f s)) :
    wp allowed (modify label f) Q s :=
  fun _ _ => h

/-! #### A call and what follows it -/

section Then
variable {R : Except ε β → σ → Prop} {k : α → Proc σ L ε β}

theorem wp_ofExcept_bind {x : Except ε α} (herror : ∀ e, x = .error e → R (.error e) s)
    (hok : ∀ a, x = .ok a → wp allowed (k a) R s) : wp allowed ((ofExcept x).bind k) R s := by
  rw [wp_bind]
  cases x with
  | error e => exact herror e rfl
  | ok a => exact hok a rfl

theorem wp_ask_bind {label : L} {e : ε} {f : σ → Except ε α} (herror : ∀ e, R (.error e) s)
    (hok : ∀ a, f s = .ok a → wp allowed (k a) R s) : wp allowed ((ask label e f).bind k) R s := by
  rw [wp_bind]
  exact wp_ask herror hok

theorem wp_tell_bind {k : Unit → Proc σ L ε β} {label : L} {e : ε} {f : σ → Except ε σ}
    (hfail : allowed label true → R (.error e) s) (hok : ∀ s', f s = .ok s' → wp allowed (k ()) R s')
    (herror : ∀ e, f s = .error e → R (.error e) s) : wp allowed ((tell label e f).bind k) R s := by
  rw [wp_bind]
  exact wp_tell hfail hok herror

theorem wp_modify_bind {k : Unit → Proc σ L ε β} {label : L} {f : σ → σ} (h : wp allowed (k ()) R (f s)) :
    wp allowed ((modify label f).bind k) R s := by
  rw [wp_bind]
  exact wp_modify h

theorem wp_attempt_bind {p : Proc σ L ε α} {k : Except ε α → Proc σ L ε β}
    (h : wp allowed p (fun r s => wp allowed (k r) R s) s) : wp allowed (p.attempt.bind k) R s := by
  rw [wp_bind, wp_attempt]
  exact h

end Then

theorem wp_exec {fault : L → Bool} {p : Proc σ L ε α} :
    wp (fun label fail => fail = fault label) p Q s ↔ Q (exec fault p s).1 (exec fault p s).2 := by
  induction p generalizing s with
  | done r => rfl
  | step label act next ih =>
    constructor
    · exact fun h => (ih _ _).1 (h _ rfl)
    · rintro h _ rfl
      exact (ih _ _).2 h

end Wp

/-! ### Runs with any verdicts -/

/-- A program that runs alone from its start to its end. -/
inductive Outcome : Proc σ L ε α → σ → Except ε α → σ → Prop
  | done (r : Except ε α) (s : σ) : Outcome (done r) s r s
  | step {label : L} {act : Bool → σ → σ} {next : Bool → σ → Proc σ L ε α} {s : σ} (fail : Bool)
      {r : Except ε α} {s' : σ} (h : Outcome (next fail s) (act fail s) r s') : Outcome (step label act next) s r s'

theorem Outcome.of_wp {p : Proc σ L ε α} {Q : Except ε α → σ → Prop} {s s' : σ} {r : Except ε α}
    (hout : Outcome p s r s') (h : p.wp (fun _ _ => True) Q s) : Q r s' := by
  induction hout with
  | done r s => exact h
  | step fail _ ih => exact ih (h fail trivial)

theorem Outcome.of_exec {p : Proc σ L ε α} (fault : L → Bool) (s : σ) :
    Outcome p s (p.exec fault s).1 (p.exec fault s).2 := by
  induction p generalizing s with
  | done r => exact .done r s
  | step label act next ih => exact .step (fault label) (ih (fault label) s (act (fault label) s))

end Proc

/-! ### Interleaving -/

section Systems
variable {ι σ L ε α : Type}

/-- The shared state and the requests under way, each with the rest of its program. -/
structure System (ι σ L ε α : Type) where
  shared : σ
  active : List (ι × Proc σ L ε α)

inductive Event (ι : Type)
  | start (i : ι)
  /-- The next step of the `n`-th request, with its verdict. -/
  | advance (n : Nat) (fail : Bool)

variable (locks : ι → Bool) (proc : ι → Proc σ L ε α)

/-- A request that takes the lock waits until no other one holds it; a request that is done leaves. -/
def System.next (sys : System ι σ L ε α) : Event ι → Option (System ι σ L ε α)
  | .start i =>
    if locks i ∧ ∃ t ∈ sys.active, locks t.1 then none
    else some { sys with active := sys.active ++ [(i, proc i)] }
  | .advance n fail =>
    match sys.active[n]? with
    | none => none
    | some (_, .done _) => some { sys with active := sys.active.eraseIdx n }
    | some (i, .step _ act next) =>
      some ⟨act fail sys.shared, sys.active.set n (i, next fail sys.shared)⟩

/-- The run of a schedule; `none` if it asks for a step that cannot be taken. -/
def System.run (sys : System ι σ L ε α) : List (Event ι) → Option (System ι σ L ε α)
  | [] => some sys
  | e :: es => (sys.next locks proc e).bind fun sys => sys.run es

/-- Runs whose steps all meet `good`. -/
def Reach (good : System ι σ L ε α → Event ι → Prop) : System ι σ L ε α → System ι σ L ε α → Prop :=
  Relation.ReflTransGen fun a b => ∃ e, good a e ∧ a.next locks proc e = some b

/-- The next step of a request is a good one. -/
def System.Good (good : L → σ → Prop) (sys : System ι σ L ε α) : Event ι → Prop
  | .start _ => True
  | .advance n _ => ∀ i label act next, sys.active[n]? = some (i, .step label act next) → good label sys.shared

variable {locks proc}

/-! ### Runs that can be computed -/

section Computed
variable (locks proc) (good : L → σ → Bool)

def System.goodNow (sys : System ι σ L ε α) : Event ι → Bool
  | .start _ => true
  | .advance n _ => match sys.active[n]? with
    | some (_, .step label _ _) => good label sys.shared
    | _ => true

/-- The run of a schedule; `none` also if a step is not a good one. -/
def System.goodRun (sys : System ι σ L ε α) : List (Event ι) → Option (System ι σ L ε α)
  | [] => some sys
  | e :: es => if sys.goodNow good e then (sys.next locks proc e).bind fun sys => sys.goodRun es else none

variable {locks proc good}

theorem System.good_of_goodNow {sys : System ι σ L ε α} {e : Event ι} (h : sys.goodNow good e = true) :
    sys.Good (fun label s => good label s = true) e := by
  cases e with
  | start i => trivial
  | advance n fail =>
    intro i label act next hn
    simpa [System.goodNow, hn] using h

theorem Reach.of_goodRun {a b : System ι σ L ε α} {es : List (Event ι)} (h : a.goodRun locks proc good es = some b) :
    Reach locks proc (System.Good fun label s => good label s = true) a b := by
  induction es generalizing a with
  | nil =>
    cases h
    exact .refl
  | cons e es ih =>
    unfold System.goodRun at h
    split at h
    · rename_i hgood
      obtain ⟨c, hc, h⟩ := Option.bind_eq_some_iff.1 h
      exact .head ⟨e, System.good_of_goodNow hgood, hc⟩ (ih h)
    · cases h

end Computed

/-! ### What survives the steps of others -/

section Keeps
variable (le : σ → σ → Prop) (inv : σ → Prop) (good : L → σ → Prop)

/-- From every later state, the good steps of a program keep the invariant and go to a later state; at the end `post` holds.
-/
def Proc.Keeps (post : Except ε α → σ → Prop) : Proc σ L ε α → σ → Prop
  | .done r, s => post r s
  | .step label act next, s => ∀ s', le s s' → inv s' → ∀ fail, good label s' →
      inv (act fail s') ∧ le s' (act fail s') ∧ (next fail s').Keeps post (act fail s')

variable {le inv good} {β : Type} {post : Except ε α → σ → Prop} {s s' : σ}

theorem Proc.Keeps.later (htrans : ∀ a b c, le a b → le b c → le a c) (hpost : ∀ r a b, le a b → post r a → post r b)
    {p : Proc σ L ε α} (h : p.Keeps le inv good post s) (hs : le s s') : p.Keeps le inv good post s' := by
  cases p with
  | done r => exact hpost r s s' hs h
  | step label act next =>
    intro t ht
    exact h t (htrans s s' t hs ht)

theorem Proc.Keeps.mono {post' : Except ε α → σ → Prop} {p : Proc σ L ε α} (hpost : ∀ r s, post r s → post' r s)
    (h : p.Keeps le inv good post s) : p.Keeps le inv good post' s := by
  induction p generalizing s with
  | done r => exact hpost r s h
  | step label act next ih =>
    intro t ht hinv fail hgood
    obtain ⟨hinv', hle, hnext⟩ := h t ht hinv fail hgood
    exact ⟨hinv', hle, ih fail t hnext⟩

theorem Proc.Keeps.frame {P : σ → Prop} {p : Proc σ L ε α} (hP : ∀ a b, le a b → P a → P b)
    (h : p.Keeps le inv good post s) (hs : P s) : p.Keeps le inv good (fun r s => post r s ∧ P s) s := by
  induction p generalizing s with
  | done r => exact ⟨h, hs⟩
  | step label act next ih =>
    intro t ht hinv fail hgood
    obtain ⟨hinv', hle, hnext⟩ := h t ht hinv fail hgood
    exact ⟨hinv', hle, ih fail t hnext (hP _ _ hle (hP s t ht hs))⟩

theorem Proc.Keeps.bind {post' : Except ε β → σ → Prop} {p : Proc σ L ε α} {k : α → Proc σ L ε β}
    (h : p.Keeps le inv good (fun r s => match r with
      | .ok a => (k a).Keeps le inv good post' s
      | .error e => post' (.error e) s) s) : (p.bind k).Keeps le inv good post' s := by
  induction p generalizing s with
  | done r => cases r <;> exact h
  | step label act next ih =>
    intro t ht hinv fail hgood
    obtain ⟨hinv', hle, hnext⟩ := h t ht hinv fail hgood
    exact ⟨hinv', hle, ih fail t hnext⟩

theorem Proc.Keeps.attempt {post : Except ε (Except ε α) → σ → Prop} {p : Proc σ L ε α}
    (h : p.Keeps le inv good (fun r s => post (.ok r) s) s) : p.attempt.Keeps le inv good post s := by
  induction p generalizing s with
  | done r => exact h
  | step label act next ih =>
    intro t ht hinv fail hgood
    obtain ⟨hinv', hle, hnext⟩ := h t ht hinv fail hgood
    exact ⟨hinv', hle, ih fail t hnext⟩

theorem Proc.Keeps.atomic {label : L} {f : Bool → σ → α × σ} (h : ∀ t fail, le s t → inv t → good label t →
    inv (f fail t).2 ∧ le t (f fail t).2 ∧ post (.ok (f fail t).1) (f fail t).2) : (Proc.atomic label f).Keeps le inv good
      post s :=
  fun t ht hinv fail hgood => h t fail ht hinv hgood

theorem Proc.Keeps.call {label : L} {e : ε} {f : σ → Except ε (α × σ)} (hrefl : ∀ a, le a a)
    (herror : ∀ t e, le s t → inv t → post (.error e) t)
    (hok : ∀ t a t', le s t → inv t → good label t → f t = .ok (a, t') → inv t' ∧ le t t' ∧ post (.ok a) t') :
    (Proc.call label e f).Keeps le inv good post s := by
  intro t ht hinv fail hgood
  cases fail with
  | true => exact ⟨hinv, hrefl t, herror t _ ht hinv⟩
  | false =>
    cases hf : f t with
    | error e' => simpa [Proc.Keeps, hf, Except.map] using ⟨hinv, hrefl t, herror t e' ht hinv⟩
    | ok r => simpa [Proc.Keeps, hf, Except.map] using hok t r.1 r.2 ht hinv hgood hf

theorem Proc.Keeps.ask {label : L} {e : ε} {f : σ → Except ε α} (hrefl : ∀ a, le a a)
    (herror : ∀ t e, le s t → inv t → post (.error e) t) (hok : ∀ t a, le s t → inv t → f t = .ok a → post (.ok a) t) :
    (Proc.ask label e f).Keeps le inv good post s := by
  refine .call hrefl herror fun t a t' ht hinv _ hf => ?_
  cases h : f t with
  | error e' => simp [h, Except.map] at hf
  | ok b =>
    simp only [h, Except.map, Except.ok.injEq, Prod.mk.injEq] at hf
    obtain ⟨rfl, rfl⟩ := hf
    exact ⟨hinv, hrefl _, hok _ _ ht hinv h⟩

theorem Proc.Keeps.tell {post : Except ε Unit → σ → Prop} {label : L} {e : ε} {f : σ → Except ε σ}
    (hrefl : ∀ a, le a a) (herror : ∀ t e, le s t → inv t → post (.error e) t)
    (hok : ∀ t t', le s t → inv t → good label t → f t = .ok t' → inv t' ∧ le t t' ∧ post (.ok ()) t') :
    (Proc.tell label e f).Keeps le inv good post s := by
  refine .call hrefl herror fun t a t' ht hinv hgood hf => ?_
  cases h : f t with
  | error e' => simp [h, Except.map] at hf
  | ok u =>
    simp only [h, Except.map, Except.ok.injEq, Prod.mk.injEq, true_and] at hf
    subst hf
    exact hok t _ ht hinv hgood h

/-- The same, where only what a program returns matters. -/
def Proc.Ensures (le : σ → σ → Prop) (inv : σ → Prop) (good : L → σ → Prop) (p : Proc σ L ε α)
    (post : α → σ → Prop) (s : σ) :
    Prop :=
  p.Keeps le inv good (fun r s => ∀ a, r = .ok a → post a s) s

section Ensures
variable {le : σ → σ → Prop} {inv : σ → Prop} {good : L → σ → Prop} {β : Type} {post : α → σ →
    Prop} {s : σ}

theorem Proc.Ensures.mono {post' : α → σ → Prop} {p : Proc σ L ε α} (h : p.Ensures le inv good post s)
    (hpost : ∀ a s, post a s → post' a s) : p.Ensures le inv good post' s :=
  Proc.Keeps.mono (fun _ s hr a ha => hpost a s (hr a ha)) h

theorem Proc.Ensures.pure {a : α} (h : post a s) : (Proc.done (.ok a) : Proc σ L ε α).Ensures le inv good post s :=
  fun b hb => by
    cases hb
    exact h

theorem Proc.Ensures.bind {post' : β → σ → Prop} {p : Proc σ L ε α} {k : α → Proc σ L ε β}
    (hp : p.Ensures le inv good post s)
    (hk : ∀ a s, post a s → (k a).Ensures le inv good post' s) : (p.bind k).Ensures le inv good post' s := by
  refine Proc.Keeps.bind (Proc.Keeps.mono (fun r s hr => ?_) hp)
  cases r with
  | ok a => exact hk a s (hr a rfl)
  | error e => exact fun a ha => nomatch ha

theorem Proc.Ensures.atomic {label : L} {f : Bool → σ → α × σ} (h : ∀ t fail, le s t → inv t → good label t →
    inv (f fail t).2 ∧ le t (f fail t).2 ∧ post (f fail t).1 (f fail t).2) :
    (Proc.atomic label f : Proc σ L ε α).Ensures le inv good post s :=
  Proc.Keeps.atomic fun t fail ht hinv hgood => by
    obtain ⟨hinv', hle, hpost⟩ := h t fail ht hinv hgood
    refine ⟨hinv', hle, fun a ha => ?_⟩
    cases ha
    exact hpost

end Ensures

/-- If every request keeps the invariant whatever the others do, it holds in every interleaving. -/
theorem Reach.keeps (le : σ → σ → Prop) (inv : σ → Prop) (post : ι → Except ε α → σ → Prop)
    (hrefl : ∀ a, le a a) (htrans : ∀ a b c, le a b → le b c → le a c)
    (hpost : ∀ i r a b, le a b → post i r a → post i r b)
    (hproc : ∀ i s, inv s → (proc i).Keeps le inv good (post i) s) {s : σ} (hs : inv s) {sys : System ι σ L ε α}
    (h : Reach locks proc (System.Good good) ⟨s, []⟩ sys) :
    inv sys.shared ∧ ∀ t ∈ sys.active, t.2.Keeps le inv good (post t.1) sys.shared := by
  induction h with
  | refl => exact ⟨hs, by simp⟩
  | @tail a b _ hstep ih =>
    obtain ⟨hinv, hactive⟩ := ih
    obtain ⟨e, hgood, hnext⟩ := hstep
    cases e with
    | start i =>
      simp only [System.next] at hnext
      split at hnext
      · cases hnext
      · cases hnext
        refine ⟨hinv, fun t ht => ?_⟩
        rcases List.mem_append.1 ht with ht | ht
        · exact hactive t ht
        · rw [List.mem_singleton.1 ht]
          exact hproc i a.shared hinv
    | advance n fail =>
      simp only [System.next] at hnext
      split at hnext
      · cases hnext
      · cases hnext
        exact ⟨hinv, fun t ht => hactive t (List.mem_of_mem_eraseIdx ht)⟩
      · rename_i i label act next hn
        cases hnext
        obtain ⟨hinv', hle, hrest⟩ := hactive _ (List.mem_of_getElem? hn) a.shared (hrefl _) hinv fail
          (hgood i label act next hn)
        refine ⟨hinv', fun t ht => ?_⟩
        rcases List.mem_or_eq_of_mem_set ht with ht | rfl
        · exact (hactive t ht).later htrans (hpost t.1) hle
        · exact hrest

end Keeps

end Systems

end Interleave
