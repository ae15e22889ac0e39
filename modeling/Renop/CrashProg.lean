import Mathlib.Data.List.Basic

/-!
# Programs over a durable state that fail and crash

A `Prog σ ε α` runs against a durable state `σ` by atomic steps. Each step first reads one verdict
of the fault schedule: `ok` lets it take effect, `fail` makes it return an error with no effect,
`crash` stops the whole program and leaves the state as it is. An exhausted schedule means `ok`, so
`[]` is the fault-free run.

`Triple P m Q E C` is the Hoare triple with one postcondition for each way to leave `m`; assertions
see the rest of the schedule. `Spec A I P m Q` is the form most proofs use: under the schedules `A`,
`m` goes from `P` to `Q`, and `I` holds at every error exit and at every crash.
-/

namespace Crash

inductive Fault
  | ok
  | fail
  | crash
deriving DecidableEq, Repr

inductive Outcome (σ ε α : Type)
  | done (r : Except ε α) (s : σ) (fs : List Fault)
  | crashed (s : σ)
deriving Repr

namespace Outcome
variable {σ ε α : Type}

/-- The durable state the program leaves behind, whichever way it ends. -/
def state : Outcome σ ε α → σ
  | done _ s _ => s
  | crashed s => s

/-- The program returned without an error. -/
def succeeded : Outcome σ ε α → Bool
  | done (.ok _) _ _ => true
  | _ => false

end Outcome

def Prog (σ ε α : Type) : Type := σ → List Fault → Outcome σ ε α

namespace Prog
variable {σ ε α β : Type}

def pure (a : α) : Prog σ ε α := fun s fs => .done (.ok a) s fs

def bind (m : Prog σ ε α) (k : α → Prog σ ε β) : Prog σ ε β := fun s fs =>
  match m s fs with
  | .done (.ok a) s' fs' => k a s' fs'
  | .done (.error e) s' fs' => .done (.error e) s' fs'
  | .crashed s' => .crashed s'

instance : Monad (Prog σ ε) where
  pure := pure
  bind := bind

def throw (e : ε) : Prog σ ε α := fun s fs => .done (.error e) s fs

/-- Read the state: no step, nothing can go wrong. -/
def read (f : σ → α) : Prog σ ε α := fun s fs => .done (.ok (f s)) s fs

/-- A test of the state that is no step of its own. -/
def check (f : σ → Except ε α) : Prog σ ε α := fun s fs => .done (f s) s fs

/-- Change the state without a step (a part of it that does not survive a crash). -/
def modify (f : σ → σ) : Prog σ ε Unit := fun s fs => .done (.ok ()) (f s) fs

/-- One atomic step: `e` is the error of a failed step, `f` may refuse on its own. -/
def step (e : ε) (f : σ → Except ε (α × σ)) : Prog σ ε α := fun s fs =>
  match fs with
  | .fail :: fs => .done (.error e) s fs
  | .crash :: _ => .crashed s
  | fs =>
    match f s with
    | .ok (a, s') => .done (.ok a) s' fs.tail
    | .error e' => .done (.error e') s fs.tail

/-- An error becomes a value. -/
def attempt (m : Prog σ ε α) : Prog σ ε (Except ε α) := fun s fs =>
  match m s fs with
  | .done r s' fs' => .done (.ok r) s' fs'
  | .crashed s' => .crashed s'

def mapError (f : ε → ε) (m : Prog σ ε α) : Prog σ ε α := fun s fs =>
  match m s fs with
  | .done (.error e) s' fs' => .done (.error (f e)) s' fs'
  | r => r

/-- The loop `for x in xs`, left at the first error. -/
def forEach : List β → (β → Prog σ ε Unit) → Prog σ ε Unit
  | [], _ => pure ()
  | x :: xs, body => bind (body x) fun _ => forEach xs body

/-- `if p { m }` -/
def when (p : Prop) [Decidable p] (m : Prog σ ε Unit) : Prog σ ε Unit := if p then m else pure ()

@[simp] theorem forEach_nil (body : β → Prog σ ε Unit) : forEach [] body = pure () := rfl

@[simp] theorem forEach_cons (x : β) (xs : List β) (body : β → Prog σ ε Unit) :
    forEach (x :: xs) body = bind (body x) fun _ => forEach xs body := rfl

@[simp] theorem bind_eq (m : Prog σ ε α) (k : α → Prog σ ε β) : m >>= k = bind m k := rfl

@[simp] theorem pure_eq (a : α) : (Pure.pure a : Prog σ ε α) = pure a := rfl

theorem step_nil (e : ε) (f : σ → Except ε (α × σ)) (s : σ) :
    step e f s [] = match f s with
      | .ok (a, s') => .done (.ok a) s' []
      | .error e' => .done (.error e') s [] := rfl

theorem step_ok (e : ε) (f : σ → Except ε (α × σ)) (s : σ) (fs : List Fault) :
    step e f s (.ok :: fs) = match f s with
      | .ok (a, s') => .done (.ok a) s' fs
      | .error e' => .done (.error e') s fs := rfl

/-! ### Triples -/

/-- From `P`, a normal return satisfies `Q`, an error return `E` and a crash `C`. -/
def Triple (P : σ → List Fault → Prop) (m : Prog σ ε α) (Q : α → σ → List Fault → Prop)
    (E : ε → σ → List Fault → Prop) (C : σ → Prop) : Prop :=
  ∀ s fs, P s fs → match m s fs with
    | .done (.ok a) s' fs' => Q a s' fs'
    | .done (.error e) s' fs' => E e s' fs'
    | .crashed s' => C s'

namespace Triple
variable {P P' : σ → List Fault → Prop} {Q Q' : α → σ → List Fault → Prop}
  {E E' : ε → σ → List Fault → Prop} {C C' : σ → Prop} {m : Prog σ ε α}

theorem conseq (h : Triple P m Q E C) (hP : ∀ s fs, P' s fs → P s fs)
    (hQ : ∀ a s fs, Q a s fs → Q' a s fs) (hE : ∀ e s fs, E e s fs → E' e s fs)
    (hC : ∀ s, C s → C' s) : Triple P' m Q' E' C' := by
  intro s fs hs
  have := h s fs (hP s fs hs)
  revert this
  rcases m s fs with ⟨_ | _, s', fs'⟩ | s'
  exacts [hE _ _ _, hQ _ _ _, hC _]

theorem pure (a : α) (h : ∀ s fs, P s fs → Q a s fs) : Triple P (Prog.pure a : Prog σ ε α) Q E C :=
  fun s fs hs => h s fs hs

theorem bind {R : β → σ → List Fault → Prop} {k : α → Prog σ ε β} (hm : Triple P m Q E C)
    (hk : ∀ a, Triple (Q a) (k a) R E C) : Triple P (Prog.bind m k) R E C := by
  intro s fs hs
  have h1 := hm s fs hs
  unfold Prog.bind
  revert h1
  rcases m s fs with ⟨_ | a, s', fs'⟩ | s'
  · exact id
  · intro h1; exact hk a s' fs' h1
  · exact id

theorem step {e : ε} {f : σ → Except ε (α × σ)} (hok : ∀ s fs, P s fs → fs.head? ≠ some .fail → fs.head? ≠ some .crash →
      match f s with
      | .ok (a, s') => Q a s' fs.tail
      | .error e' => E e' s fs.tail)
    (hfail : ∀ s fs, P s (.fail :: fs) → E e s fs) (hcrash : ∀ s fs, P s (.crash :: fs) → C s) :
    Triple P (Prog.step e f) Q E C := by
  intro s fs hs
  match fs with
  | .fail :: fs => exact hfail s fs hs
  | .crash :: fs => exact hcrash s fs hs
  | [] =>
    have := hok s [] hs (by simp) (by simp)
    rw [step_nil]; revert this
    rcases f s with _ | ⟨a, s'⟩ <;> exact id
  | .ok :: fs =>
    have := hok s (.ok :: fs) hs (by simp) (by simp)
    rw [step_ok]; revert this
    rcases f s with _ | ⟨a, s'⟩ <;> exact id

theorem attempt {E' : ε → σ → List Fault → Prop} (h : Triple P m Q E' C) :
    Triple P (Prog.attempt m)
      (fun r s fs => match r with | .ok a => Q a s fs | .error e => E' e s fs) E C := by
  intro s fs hs
  have := h s fs hs
  unfold Prog.attempt
  revert this
  rcases m s fs with ⟨_ | a, s', fs'⟩ | s' <;> exact id

theorem attempt_step {e : ε} {f : σ → σ} {Q : Except ε Unit → σ → List Fault → Prop}
    (hok : ∀ s fs, P s fs → fs.head? ≠ some .fail → fs.head? ≠ some .crash → Q (.ok ()) (f s) fs.tail)
    (hfail : ∀ s fs, P s (.fail :: fs) → Q (.error e) s fs) (hcrash : ∀ s fs, P s (.crash :: fs) → C s) :
    Triple P (Prog.attempt (Prog.step e fun s => .ok ((), f s))) Q E C := by
  refine conseq (@attempt _ _ _ _ (fun a s fs => Q (.ok a) s fs) _ _ _ (fun e s fs => Q (.error e) s fs)
    (step hok hfail hcrash)) (fun _ _ => id) ?_ (fun _ _ _ => id) fun _ => id
  rintro (e | a) s fs h <;> exact h

end Triple
end Prog

/-! ### Specifications under a set of schedules -/

/-- A set of schedules that is closed under reading a verdict. -/
structure Sched where
  mem : List Fault → Prop
  tail : ∀ fs, mem fs → mem fs.tail

namespace Sched

/-- Any step may fail and the program may crash anywhere. -/
def any : Sched := ⟨fun _ => True, fun _ _ => trivial⟩

/-- The fault-free run. -/
def clean : Sched := ⟨fun fs => fs = [], fun _ h => by rw [h]; rfl⟩

/-- The program may crash, but no step fails. -/
def crashOnly : Sched :=
  ⟨fun fs => Fault.fail ∉ fs, fun _ h hm => h (List.mem_of_mem_tail hm)⟩

def mayFail (A : Sched) : Prop := ∃ fs, A.mem (.fail :: fs)

def mayCrash (A : Sched) : Prop := ∃ fs, A.mem (.crash :: fs)

theorem not_mayFail_clean : ¬ clean.mayFail := fun ⟨_, h⟩ => nomatch h

theorem not_mayCrash_clean : ¬ clean.mayCrash := fun ⟨_, h⟩ => nomatch h

theorem not_mayFail_crashOnly : ¬ crashOnly.mayFail := fun ⟨_, h⟩ => h (List.mem_cons_self ..)

end Sched

namespace Prog
variable {σ ε α β : Type}

/-- Under the schedules `A`, `m` goes from `P` to `Q`; where it returns an error or crashes, the
schedule allowed that and `I` holds of the state left behind. -/
def Spec (A : Sched) (I : σ → Prop) (P : σ → Prop) (m : Prog σ ε α) (Q : α → σ → Prop) : Prop :=
  Triple (fun s fs => P s ∧ A.mem fs) m (fun a s fs => Q a s ∧ A.mem fs)
    (fun _ s fs => I s ∧ A.mem fs ∧ A.mayFail) (fun s => I s ∧ A.mayCrash)

namespace Spec
variable {A : Sched} {I I' P P' : σ → Prop} {Q Q' : α → σ → Prop} {m : Prog σ ε α}

theorem conseq (h : Spec A I P m Q) (hP : ∀ s, P' s → P s) (hQ : ∀ a s, Q a s → Q' a s) :
    Spec A I P' m Q' :=
  Triple.conseq h (fun s _ hs => ⟨hP s hs.1, hs.2⟩) (fun a s _ hs => ⟨hQ a s hs.1, hs.2⟩)
    (fun _ _ _ => id) (fun _ => id)

theorem weaken (h : Spec A I P m Q) (hI : ∀ s, I s → I' s) : Spec A I' P m Q :=
  Triple.conseq h (fun _ _ => id) (fun _ _ _ => id)
    (fun _ s _ hs => ⟨hI s hs.1, hs.2⟩) (fun s hs => ⟨hI s hs.1, hs.2⟩)

theorem and (h : Spec A I P m Q) (h' : Spec A I' P' m Q') :
    Spec A (fun s => I s ∧ I' s) (fun s => P s ∧ P' s) m (fun a s => Q a s ∧ Q' a s) := by
  intro s fs hs
  have h1 := h s fs ⟨hs.1.1, hs.2⟩
  have h2 := h' s fs ⟨hs.1.2, hs.2⟩
  revert h1 h2
  rcases m s fs with ⟨e | a, s', fs'⟩ | s'
  · exact fun h1 h2 => ⟨⟨h1.1, h2.1⟩, h1.2⟩
  · exact fun h1 h2 => ⟨⟨h1.1, h2.1⟩, h1.2⟩
  · exact fun h1 h2 => ⟨⟨h1.1, h2.1⟩, h1.2⟩

theorem and_state (h : Spec A I P m Q) (h' : ∀ s fs, P' s → I' (m s fs).state) :
    Spec A (fun s => I s ∧ I' s) (fun s => P s ∧ P' s) m (fun a s => Q a s ∧ I' s) := by
  intro s fs hs
  have h1 := h s fs ⟨hs.1.1, hs.2⟩
  have h2 := h' s fs hs.1.2
  revert h1 h2
  rcases m s fs with ⟨e | a, s', fs'⟩ | s'
  · exact fun h1 h2 => ⟨⟨h1.1, h2⟩, h1.2⟩
  · exact fun h1 h2 => ⟨⟨h1.1, h2⟩, h1.2⟩
  · exact fun h1 h2 => ⟨⟨h1.1, h2⟩, h1.2⟩

theorem of_state (h : ∀ s₀, P s₀ → Spec A I (fun s => s = s₀) m Q) : Spec A I P m Q :=
  fun s fs hs => h s hs.1 s fs ⟨rfl, hs.2⟩

theorem pure (a : α) (h : ∀ s, P s → Q a s) : Spec A I P (Prog.pure a : Prog σ ε α) Q :=
  fun s _ hs => ⟨h s hs.1, hs.2⟩

theorem modify {f : σ → σ} {Q : Unit → σ → Prop} (h : ∀ s, P s → Q () (f s)) :
    Spec A I P (Prog.modify f : Prog σ ε Unit) Q :=
  fun s _ hs => ⟨h s hs.1, hs.2⟩

theorem read {f : σ → α} (h : ∀ s, P s → Q (f s) s) : Spec A I P (Prog.read f : Prog σ ε α) Q :=
  fun s _ hs => ⟨h s hs.1, hs.2⟩

theorem check {f : σ → Except ε α} (h : ∀ s, P s → match f s with
    | .ok a => Q a s
    | .error _ => I s ∧ A.mayFail) : Spec A I P (Prog.check f) Q := by
  intro s fs hs
  have := h s hs.1
  unfold Prog.check
  revert this
  rcases f s with e | a
  exacts [fun h => ⟨h.1, hs.2, h.2⟩, fun h => ⟨h, hs.2⟩]

theorem throw (e : ε) (h : ∀ s, P s → I s ∧ A.mayFail) : Spec A I P (Prog.throw e) Q :=
  fun s _ hs => ⟨(h s hs.1).1, hs.2, (h s hs.1).2⟩

theorem bind {R : β → σ → Prop} {k : α → Prog σ ε β} (hm : Spec A I P m Q)
    (hk : ∀ a, Spec A I (Q a) (k a) R) : Spec A I P (Prog.bind m k) R :=
  Triple.bind hm hk

theorem step_or {e : ε} {f : σ → Except ε (α × σ)} (hI : ∀ s, P s → I s)
    (hf : ∀ s, P s → (∃ a s', f s = .ok (a, s') ∧ Q a s') ∨ A.mayFail ∧ ∃ e', f s = .error e') :
    Spec A I P (Prog.step e f) Q := by
  refine Triple.step ?_ ?_ ?_
  · intro s fs hs _ _
    rcases hf s hs.1 with ⟨a, s', h1, h2⟩ | ⟨hA, e', h1⟩ <;> rw [h1]
    · exact ⟨h2, A.tail fs hs.2⟩
    · exact ⟨hI s hs.1, A.tail fs hs.2, hA⟩
  · intro s fs hs; exact ⟨hI s hs.1, A.tail _ hs.2, fs, hs.2⟩
  · intro s fs hs; exact ⟨hI s hs.1, fs, hs.2⟩

theorem step {e : ε} {f : σ → Except ε (α × σ)} (hI : ∀ s, P s → I s)
    (hf : ∀ s, P s → ∃ a s', f s = .ok (a, s') ∧ Q a s') : Spec A I P (Prog.step e f) Q :=
  step_or hI fun s hs => .inl (hf s hs)

theorem attempt (h : Spec A I' P m Q) (hI : ∀ s, I' s → I s) :
    Spec A I P (Prog.attempt m)
      (fun r s => match r with | .ok a => Q a s | .error _ => I' s ∧ A.mayFail) := by
  refine Triple.conseq (Triple.attempt h) (fun _ _ => id) ?_ (fun _ _ _ => id) fun s hs => ⟨hI s hs.1, hs.2⟩
  rintro (e | a) s fs hs
  · exact ⟨⟨hs.1, hs.2.2⟩, hs.2.1⟩
  · exact hs

theorem mapError {f : ε → ε} (h : Spec A I P m Q) : Spec A I P (Prog.mapError f m) Q := by
  intro s fs hs
  have := h s fs hs
  unfold Prog.mapError
  revert this
  rcases m s fs with ⟨_ | a, s', fs'⟩ | s' <;> exact id

theorem forEach {R : List β → σ → Prop} {body : β → Prog σ ε Unit}
    (h : ∀ x xs, Spec A I (R (x :: xs)) (body x) fun _ => R xs) (xs : List β) :
    Spec A I (R xs) (Prog.forEach xs body) fun _ => R [] := by
  induction xs with
  | nil => exact pure () fun _ => id
  | cons x xs ih => exact bind (h x xs) fun _ => ih

theorem when {p : Prop} [Decidable p] {m : Prog σ ε Unit} {Q : Unit → σ → Prop} (h : p → Spec A I P m Q)
    (h' : ¬ p → ∀ s, P s → Q () s) : Spec A I P (Prog.when p m) Q := by
  unfold Prog.when
  split_ifs with hp
  exacts [h hp, pure () (h' hp)]

theorem run_clean (h : Spec Sched.clean I P m Q) {s : σ} (hs : P s) :
    ∃ a s', m s [] = .done (.ok a) s' [] ∧ Q a s' := by
  have := h s [] ⟨hs, rfl⟩
  revert this
  rcases m s [] with ⟨e | a, s', fs'⟩ | s'
  · exact fun h => absurd h.2.2 Sched.not_mayFail_clean
  · rintro ⟨h1, rfl⟩; exact ⟨a, s', rfl, h1⟩
  · exact fun h => absurd h.2 Sched.not_mayCrash_clean

theorem run_state (h : Spec Sched.any I P m Q) (hQ : ∀ a s, Q a s → I s) {s : σ} (hs : P s)
    (fs : List Fault) : I (m s fs).state := by
  have := h s fs ⟨hs, trivial⟩
  revert this
  rcases m s fs with ⟨e | a, s', fs'⟩ | s'
  exacts [fun h => h.1, fun h => hQ a s' h.1, fun h => h.1]

end Spec

/-! ### What a program can do to the state -/

/-- Whatever the faults, `m` takes each state to a related one. -/
def Within (R : σ → σ → Prop) (m : Prog σ ε α) : Prop := ∀ s fs, R s (m s fs).state

/-- `m` leaves the part of the state that `f` reads as it is. -/
abbrev Keeps {τ : Type} (f : σ → τ) (m : Prog σ ε α) : Prop := Within (fun s s' => f s' = f s) m

/-- A relation that programs can be composed along. -/
structure Frame (R : σ → σ → Prop) : Prop where
  refl : ∀ s, R s s
  trans : ∀ s s' s'', R s s' → R s' s'' → R s s''

theorem Frame.keeps {τ : Type} (f : σ → τ) : Frame fun s s' => f s' = f s :=
  ⟨fun _ => rfl, fun _ _ _ h h' => h'.trans h⟩

namespace Within
variable {R R' : σ → σ → Prop} {m : Prog σ ε α}

theorem mono (h : Within R m) (hR : ∀ s s', R s s' → R' s s') : Within R' m := fun s fs => hR _ _ (h s fs)

theorem bind (hR : Frame R) {k : α → Prog σ ε β} (hm : Within R m) (hk : ∀ a, Within R (k a)) :
    Within R (m >>= k) := by
  intro s fs
  have h1 := hm s fs
  show R s (Prog.bind m k s fs).state
  unfold Prog.bind
  revert h1
  rcases m s fs with ⟨_ | a, s', fs'⟩ | s'
  · exact id
  · intro h1; exact hR.trans _ _ _ h1 (hk a s' fs')
  · exact id

theorem pure (hR : Frame R) (a : α) : Within R (Prog.pure a : Prog σ ε α) := fun s _ => hR.refl s

theorem throw (hR : Frame R) (e : ε) : Within R (Prog.throw e : Prog σ ε α) := fun s _ => hR.refl s

theorem read (hR : Frame R) (f : σ → α) : Within R (Prog.read f : Prog σ ε α) := fun s _ => hR.refl s

theorem modify {f : σ → σ} (h : ∀ s, R s (f s)) : Within R (Prog.modify f : Prog σ ε Unit) := fun s _ => h s

theorem step (hR : Frame R) {e : ε} {f : σ → Except ε (α × σ)} (h : ∀ s a s', f s = .ok (a, s') → R s s') :
    Within R (Prog.step e f) := by
  intro s fs
  have hok : ∀ gs, R s (match f s with
      | .ok (a, s') => Outcome.done (.ok a) s' gs
      | .error e' => .done (.error e') s gs).state := by
    intro gs
    rcases hf : f s with e' | ⟨a, s'⟩
    exacts [hR.refl s, h s a s' hf]
  match fs with
  | [] => exact hok _
  | .ok :: fs => exact hok _
  | .fail :: fs => exact hR.refl s
  | .crash :: fs => exact hR.refl s

theorem attempt (h : Within R m) : Within R (Prog.attempt m) := by
  intro s fs
  have := h s fs
  unfold Prog.attempt
  revert this
  rcases m s fs with ⟨_ | a, s', fs'⟩ | s' <;> exact id

theorem mapError (h : Within R m) (f : ε → ε) : Within R (Prog.mapError f m) := by
  intro s fs
  have := h s fs
  unfold Prog.mapError
  revert this
  rcases m s fs with ⟨_ | a, s', fs'⟩ | s' <;> exact id

theorem forEach (hR : Frame R) {xs : List β} {body : β → Prog σ ε Unit} (h : ∀ x ∈ xs, Within R (body x)) :
    Within R (Prog.forEach xs body) := by
  induction xs with
  | nil => exact pure hR ()
  | cons x xs ih =>
    exact bind hR (h x (List.mem_cons_self ..)) fun _ => ih fun y hy => h y (List.mem_cons_of_mem _ hy)

theorem when (hR : Frame R) {p : Prop} [Decidable p] {m : Prog σ ε Unit} (h : p → Within R m) :
    Within R (Prog.when p m) := by
  unfold Prog.when
  split_ifs with hp
  exacts [h hp, pure hR ()]

end Within

theorem Spec.of_within {R : σ → σ → Prop} {I P : σ → Prop} {m : Prog σ ε α} (h : Within R m)
    (hP : ∀ s s', P s → R s s' → P s') (hI : ∀ s, P s → I s) : Spec Sched.any I P m fun _ => P := by
  intro s fs hs
  have h1 := h s fs
  revert h1
  rcases m s fs with ⟨e | a, s', fs'⟩ | s'
  · exact fun h1 => ⟨hI s' (hP s s' hs.1 h1), trivial, [], trivial⟩
  · exact fun h1 => ⟨hP s s' hs.1 h1, trivial⟩
  · exact fun h1 => ⟨hI s' (hP s s' hs.1 h1), [], trivial⟩

end Prog
end Crash
