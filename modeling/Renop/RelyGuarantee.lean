import Renop.Interleave

/-!
# Requests that exclude each other

`Reach.keeps` asks every request to live with every step of every other one. Here a request is only started if it is `apart`
from those under way, and each has to live with the steps of the requests that it is apart from: what it relies on is its own,
and what it guarantees is what they rely on.
-/

namespace Interleave

section Relies
variable {ι σ L ε α β : Type} {rely guar : σ → σ → Prop} {inv : σ → Prop} {good : L → σ → Prop}

/-- From every state that others may leave, the good steps keep the invariant and are as promised; at the end `post` holds. -/
def Proc.Relies (rely guar : σ → σ → Prop) (inv : σ → Prop) (good : L → σ → Prop)
    (post : Except ε α → σ → Prop) :
    Proc σ L ε α → σ → Prop
  | .done r, s => post r s
  | .step label act next, s => ∀ s', rely s s' → inv s' → ∀ fail, good label s' →
      inv (act fail s') ∧ guar s' (act fail s') ∧ (next fail s').Relies rely guar inv good post (act fail s')

variable {post : Except ε α → σ → Prop} {s s' : σ}

theorem Proc.Relies.later (htrans : ∀ a b c, rely a b → rely b c → rely a c)
    (hpost : ∀ r a b, rely a b → post r a → post r b)
    {p : Proc σ L ε α} (h : p.Relies rely guar inv good post s) (hs : rely s s') :
      p.Relies rely guar inv good post s' := by
  cases p with
  | done r => exact hpost r s s' hs h
  | step label act next =>
    intro t ht
    exact h t (htrans s s' t hs ht)

theorem Proc.Relies.mono {post' : Except ε α → σ → Prop} {p : Proc σ L ε α} (h : p.Relies rely guar inv good post s)
    (hpost : ∀ r s, post r s → post' r s) : p.Relies rely guar inv good post' s := by
  induction p generalizing s with
  | done r => exact hpost r s h
  | step label act next ih =>
    intro t ht hinv fail hgood
    obtain ⟨hinv', hguar, hnext⟩ := h t ht hinv fail hgood
    exact ⟨hinv', hguar, ih fail t hnext⟩

theorem Proc.Relies.guar_mono {guar' : σ → σ → Prop} {p : Proc σ L ε α} (h : p.Relies rely guar inv good post s)
    (hguar : ∀ a b, guar a b → guar' a b) : p.Relies rely guar' inv good post s := by
  induction p generalizing s with
  | done r => exact h
  | step label act next ih =>
    intro t ht hinv fail hgood
    obtain ⟨hinv', hg, hnext⟩ := h t ht hinv fail hgood
    exact ⟨hinv', hguar _ _ hg, ih fail t hnext⟩

theorem Proc.Relies.weaken {rely' guar' : σ → σ → Prop} {inv' : σ → Prop} {p : Proc σ L ε α}
    (h : p.Relies rely guar inv good post s)
    (hrely : ∀ a b, rely' a b → rely a b) (hguar : ∀ a b, guar a b → guar' a b) (hinv : ∀ a, inv' a ↔ inv a) :
    p.Relies rely' guar' inv' good post s := by
  induction p generalizing s with
  | done r => exact h
  | step label act next ih =>
    intro t ht hinv' fail hgood
    obtain ⟨hinv', hg, hnext⟩ := h t (hrely s t ht) ((hinv t).1 hinv') fail hgood
    exact ⟨(hinv _).2 hinv', hguar _ _ hg, ih fail t hnext⟩

theorem Proc.Relies.bind {post' : Except ε β → σ → Prop} {p : Proc σ L ε α} {k : α → Proc σ L ε β}
    (h : p.Relies rely guar inv good post s) (hok : ∀ a s, post (.ok a) s → (k a).Relies rely guar inv good post' s)
    (herror : ∀ e s, post (.error e) s → post' (.error e) s) : (p.bind k).Relies rely guar inv good post' s := by
  induction p generalizing s with
  | done r =>
    cases r with
    | ok a => exact hok a s h
    | error e => exact herror e s h
  | step label act next ih =>
    intro t ht hinv fail hgood
    obtain ⟨hinv', hguar, hnext⟩ := h t ht hinv fail hgood
    exact ⟨hinv', hguar, ih fail t hnext⟩

theorem Proc.Relies.bind_any {p : Proc σ L ε α} {k : α → Proc σ L ε β}
    (h : p.Relies rely guar inv good (fun _ _ => True) s) (hk : ∀ a s, (k a).Relies rely guar inv good (fun _ _ => True) s) :
      (p.bind k).Relies rely guar inv good (fun _ _ => True) s :=
  h.bind (fun a s _ => hk a s) fun _ _ _ => trivial

theorem Proc.Relies.attempt {post : Except ε (Except ε α) → σ → Prop} {p : Proc σ L ε α}
    (h : p.Relies rely guar inv good (fun r s => post (.ok r) s) s) : p.attempt.Relies rely guar inv good post s := by
  induction p generalizing s with
  | done r => exact h
  | step label act next ih =>
    intro t ht hinv fail hgood
    obtain ⟨hinv', hguar, hnext⟩ := h t ht hinv fail hgood
    exact ⟨hinv', hguar, ih fail t hnext⟩

theorem Proc.Relies.frame {P : σ → Prop} (hrely : ∀ a b, P a → rely a b → P b)
    (hguar : ∀ a b, P a → guar a b → P b) {p : Proc σ L ε α} (h : p.Relies rely guar inv good post s) (hs : P s) :
    p.Relies rely guar inv good (fun r t => post r t ∧ P t) s := by
  induction p generalizing s with
  | done r => exact ⟨h, hs⟩
  | step label act next ih =>
    intro t ht hinv fail hgood
    obtain ⟨hinv', hg, hnext⟩ := h t ht hinv fail hgood
    exact ⟨hinv', hg, ih fail t hnext (hguar _ _ (hrely _ _ hs ht) hg)⟩

theorem Proc.Relies.call {label : L} {e : ε} {f : σ → Except ε (α × σ)} (hrefl : ∀ a, guar a a)
    (herror : ∀ t e, rely s t → inv t → post (.error e) t)
    (hok : ∀ t a t', rely s t → inv t → good label t → f t = .ok (a, t') → inv t' ∧ guar t t' ∧
      post (.ok a) t') :
    (Proc.call label e f).Relies rely guar inv good post s := by
  intro t ht hinv fail hgood
  cases fail with
  | true => exact ⟨hinv, hrefl t, herror t _ ht hinv⟩
  | false =>
    cases hf : f t with
    | error e' => simpa [Proc.Relies, hf, Except.map] using ⟨hinv, hrefl t, herror t e' ht hinv⟩
    | ok r => simpa [Proc.Relies, hf, Except.map] using hok t r.1 r.2 ht hinv hgood hf

theorem Proc.Relies.ask {label : L} {e : ε} {f : σ → Except ε α} (hrefl : ∀ a, guar a a)
    (herror : ∀ t e, rely s t → inv t → post (.error e) t)
    (hok : ∀ t a, rely s t → inv t → f t = .ok a → post (.ok a) t) :
    (Proc.ask label e f).Relies rely guar inv good post s := by
  refine .call hrefl herror fun t a t' ht hinv _ hf => ?_
  cases h : f t with
  | error e' => simp [h, Except.map] at hf
  | ok b =>
    simp only [h, Except.map, Except.ok.injEq, Prod.mk.injEq] at hf
    obtain ⟨rfl, rfl⟩ := hf
    exact ⟨hinv, hrefl _, hok _ _ ht hinv h⟩

theorem Proc.Relies.tell {post : Except ε Unit → σ → Prop} {label : L} {e : ε} {f : σ → Except ε σ}
    (hrefl : ∀ a, guar a a) (herror : ∀ t e, rely s t → inv t → post (.error e) t)
    (hok : ∀ t t', rely s t → inv t → good label t → f t = .ok t' → inv t' ∧ guar t t' ∧ post (.ok ()) t') :
    (Proc.tell label e f).Relies rely guar inv good post s := by
  refine .call hrefl herror fun t a t' ht hinv hgood hf => ?_
  cases h : f t with
  | error e' => simp [h, Except.map] at hf
  | ok u =>
    simp only [h, Except.map, Except.ok.injEq, Prod.mk.injEq, true_and] at hf
    subst hf
    exact hok t _ ht hinv hgood h

theorem Proc.Relies.atomic {label : L} {f : Bool → σ → α × σ} (h : ∀ t fail, rely s t → inv t → good label t →
    inv (f fail t).2 ∧ guar t (f fail t).2 ∧ post (.ok (f fail t).1) (f fail t).2) :
    (Proc.atomic label f).Relies rely guar inv good post s :=
  fun t ht hinv fail hgood => h t fail ht hinv hgood

theorem Proc.Relies.exec (hrefl : ∀ a, rely a a) {p : Proc σ L ε α} (h : p.Relies rely guar inv (fun _ _ => True) post s)
    (hs : inv s) (fault : L → Bool) : inv (p.exec fault s).2 ∧ post (p.exec fault s).1 (p.exec fault s).2 := by
  induction p generalizing s with
  | done r => exact ⟨hs, h⟩
  | step label act next ih =>
    obtain ⟨hinv, -, hnext⟩ := h s (hrefl s) hs (fault label) trivial
    exact ih (fault label) s hnext hinv

end Relies

/-! ### Runs -/

section Runs
variable {ι σ L ε α : Type}

def Proc.finished : Proc σ L ε α → Bool
  | .done _ => true
  | .step .. => false

/-- Only some requests are started, each apart from those under way, and the steps are good ones. -/
def System.Orderly (started : ι → Prop) (apart : ι → ι → Prop) (good : L → σ → Prop)
    (sys : System ι σ L ε α) : Event ι → Prop
  | .start i => started i ∧ ∀ t ∈ sys.active, t.2.finished = false → apart i t.1
  | .advance n _ => ∀ i label act next, sys.active[n]? = some (i, .step label act next) → good label sys.shared

/-- The requests under way are apart from each other. -/
def AllApart (apart : ι → ι → Prop) (active : List (ι × Proc σ L ε α)) : Prop :=
  ∀ (m n : Nat) t u, m ≠ n → active[m]? = some t → active[n]? = some u → t.2.finished = false →
    u.2.finished = false →
    apart t.1 u.1

section AllApart
variable {apart : ι → ι → Prop} {active : List (ι × Proc σ L ε α)}

theorem AllApart.push (hsymm : ∀ i j, apart i j → apart j i) (h : AllApart apart active) {t : ι × Proc σ L ε α}
    (ht : ∀ u ∈ active, u.2.finished = false → apart t.1 u.1) : AllApart apart (active ++ [t]) := by
  have hget : ∀ {n : Nat} {u : ι × Proc σ L ε α}, (active ++ [t])[n]? = some u → active[n]? = some u ∨
      (n = active.length ∧ u = t) := by
    intro n u hn
    rcases Nat.lt_or_ge n active.length with hlt | hge
    · exact .inl (by rwa [List.getElem?_append_left hlt] at hn)
    · rw [List.getElem?_append_right hge] at hn
      cases hk : n - active.length with
      | zero =>
        rw [hk] at hn
        exact .inr ⟨by omega, (Option.some.inj hn).symm⟩
      | succ k =>
        rw [hk] at hn
        cases hn
  intro m n u v hmn hm hn hu hv
  rcases hget hm with hm' | ⟨hm', hu'⟩ <;> rcases hget hn with hn' | ⟨hn', hv'⟩
  · exact h m n u v hmn hm' hn' hu hv
  · exact hsymm _ _ (hv' ▸ ht u (List.mem_of_getElem? hm') hu)
  · exact hu' ▸ ht v (List.mem_of_getElem? hn') hv
  · exact absurd (hm'.trans hn'.symm) hmn

theorem AllApart.erase (h : AllApart apart active) (k : Nat) : AllApart apart (active.eraseIdx k) := by
  intro m n u v hmn hm hn hu hv
  rw [List.getElem?_eraseIdx] at hm hn
  split at hm <;> split at hn
  · exact h m n u v hmn hm hn hu hv
  · exact h m (n + 1) u v (by omega) hm hn hu hv
  · exact h (m + 1) n u v (by omega) hm hn hu hv
  · exact h (m + 1) (n + 1) u v (by omega) hm hn hu hv

theorem AllApart.advance (h : AllApart apart active) {k : Nat} {i : ι} {p p' : Proc σ L ε α}
    (hk : active[k]? = some (i, p)) (hp : p.finished = false) : AllApart apart (active.set k (i, p')) := by
  have hget : ∀ {n : Nat} {u : ι × Proc σ L ε α}, (active.set k (i, p'))[n]? = some u → u.2.finished = false →
      ∃ u', active[n]? = some u' ∧ u'.1 = u.1 ∧ u'.2.finished = false := by
    intro n u hn hu
    rw [List.getElem?_set] at hn
    split at hn
    · rename_i hkn
      subst hkn
      split at hn
      · cases hn
        exact ⟨(i, p), hk, rfl, hp⟩
      · cases hn
    · exact ⟨u, hn, rfl, hu⟩
  intro m n u v hmn hm hn hu hv
  obtain ⟨u', hm', hu', hfin⟩ := hget hm hu
  obtain ⟨v', hn', hv', hfin'⟩ := hget hn hv
  exact hu' ▸ hv' ▸ h m n u' v' hmn hm' hn' hfin hfin'

end AllApart

variable {locks : ι → Bool} {proc : ι → Proc σ L ε α} {good : L → σ → Prop} (rely : ι → σ → σ → Prop)
    (inv : σ → Prop) (post : ι → Except ε α → Prop) (started : ι → Prop) (apart : ι → ι → Prop)

/-- What the other requests rely on. -/
def Promise (i : ι) (a b : σ) : Prop := ∀ j, started j → apart i j → rely j a b

/-- If every request keeps the invariant and what those apart from it rely on, the invariant holds in every run. -/
theorem Reach.relies (hsymm : ∀ i j, apart i j → apart j i)
    (htrans : ∀ i a b c, rely i a b → rely i b c → rely i a c) (hrefl : ∀ i a, rely i a a)
    (hproc : ∀ i s, started i → inv s →
      (proc i).Relies (rely i) (Promise rely started apart i) inv good (fun r _ => post i r) s)
    {s : σ} (hs : inv s) {sys : System ι σ L ε α} (h : Reach locks proc (System.Orderly started apart good)
      ⟨s, []⟩ sys) :
    inv sys.shared ∧ (∀ i r, (i, .done r) ∈ sys.active → post i r) := by
  have hall : inv sys.shared ∧ AllApart apart sys.active ∧ ∀ t ∈ sys.active, started t.1 ∧
      t.2.Relies (rely t.1) (Promise rely started apart t.1) inv good (fun r _ => post t.1 r) sys.shared := by
    induction h with
    | refl => exact ⟨hs, fun m n t u _ hm => by simp at hm, fun t ht => absurd ht List.not_mem_nil⟩
    | @tail a b _ hstep ih =>
      obtain ⟨hinv, hapart, hactive⟩ := ih
      obtain ⟨e, horderly, hnext⟩ := hstep
      cases e with
      | start i =>
        simp only [System.next] at hnext
        split at hnext
        · cases hnext
        · cases hnext
          refine ⟨hinv, hapart.push hsymm horderly.2, fun t ht => ?_⟩
          rcases List.mem_append.1 ht with ht | ht
          · exact hactive t ht
          · rw [List.mem_singleton.1 ht]
            exact ⟨horderly.1, hproc i a.shared horderly.1 hinv⟩
      | advance n fail =>
        simp only [System.next] at hnext
        split at hnext
        · cases hnext
        · cases hnext
          exact ⟨hinv, hapart.erase n, fun t ht => hactive t (List.mem_of_mem_eraseIdx ht)⟩
        · rename_i i label act next hn
          cases hnext
          obtain ⟨hstarted, hrelies⟩ := hactive _ (List.mem_of_getElem? hn)
          obtain ⟨hinv', hpromise, hrest⟩ := hrelies a.shared (hrefl i _) hinv fail (horderly i label act next hn)
          refine ⟨hinv', hapart.advance hn rfl, fun t ht => ?_⟩
          -- the request itself, those that are done, and those that it is apart from
          obtain ⟨m, hm⟩ := List.mem_iff_getElem?.1 ht
          rw [List.getElem?_set] at hm
          split at hm
          · rename_i hnm
            subst hnm
            split at hm
            · cases hm
              exact ⟨hstarted, hrest⟩
            · cases hm
          · rename_i hnm
            obtain ⟨hstarted', hrelies'⟩ := hactive t (List.mem_of_getElem? hm)
            refine ⟨hstarted', ?_⟩
            cases hfin : t.2.finished with
            | false =>
              have hrely := hpromise t.1 hstarted' (hapart n m (i, .step label act next) t hnm hn hm rfl hfin)
              exact hrelies'.later (htrans t.1) (fun _ _ _ _ h => h) hrely
            | true =>
              obtain ⟨j, p⟩ := t
              cases p with
              | done r => exact hrelies'
              | step label act next => cases hfin
  exact ⟨hall.1, fun i r hr => (hall.2.2 (i, .done r) hr).2⟩

/-! #### Answers that are remembered -/

/-- A request that is answered stays with the others until it is taken away, and all of them are apart; the steps are good
ones, to admitted states. -/
def System.Ordered (started : ι → σ → Prop) (apart : ι → ι → Prop) (good : L → σ → Prop)
    (admitted : σ → Prop) (sys : System ι σ L ε α) :
    Event ι → Prop
  | .start i => started i sys.shared ∧ ∀ t ∈ sys.active, apart i t.1
  | .advance n fail => ∀ i label act next, sys.active[n]? = some (i, .step label act next) →
    good label sys.shared ∧ admitted (act fail sys.shared)

/-- As `Reach.relies`, for runs with admitted states only; what an answer says holds as long as it is remembered. -/
theorem Reach.ordered {proc : ι → Proc σ L ε α} (rely : ι → σ → σ → Prop) (inv admitted : σ → Prop)
    (good : L → σ → Prop) (post : ι → Except ε α → σ → Prop)
    (started : ι → σ → Prop) (apart : ι → ι → Prop) (hsymm : ∀ i j, apart i j → apart j i)
    (htrans : ∀ i a b c, rely i a b → rely i b c → rely i a c) (hrefl : ∀ i a, rely i a a)
    (hpost : ∀ i r a b, rely i a b → post i r a → post i r b) (hproc : ∀ i s, started i s → admitted s → inv s →
      (proc i).Relies (fun a b => rely i a b ∧ admitted a ∧ admitted b) (fun a b => ∀ j, apart i j → rely j a b)
        (fun s => admitted s → inv s) good (post i) s)
    {s : σ} (hs : inv s) (hadmitted : admitted s) {sys : System ι σ L ε α}
    (h : Reach locks proc (System.Ordered started apart good admitted) ⟨s, []⟩ sys) :
    inv sys.shared ∧ ∀ i r, (i, .done r) ∈ sys.active → post i r sys.shared := by
  have hall : inv sys.shared ∧ admitted sys.shared ∧ (sys.active.map (·.1)).Pairwise apart ∧ ∀ t ∈ sys.active,
      t.2.Relies (fun a b => rely t.1 a b ∧ admitted a ∧ admitted b) (fun a b => ∀ j, apart t.1 j → rely j a b)
        (fun s => admitted s → inv s) good (post t.1) sys.shared := by
    induction h with
    | refl => exact ⟨hs, hadmitted, .nil, fun t ht => absurd ht List.not_mem_nil⟩
    | @tail a b _ hstep ih =>
      obtain ⟨hinv, hadm, hapart, hactive⟩ := ih
      obtain ⟨e, hordered, hnext⟩ := hstep
      cases e with
      | start i =>
        simp only [System.next] at hnext
        split at hnext
        · cases hnext
        · cases hnext
          refine ⟨hinv, hadm, ?_, fun t ht => ?_⟩
          · rw [List.map_append, List.pairwise_append]
            refine ⟨hapart, List.pairwise_singleton _ _, fun j hj k hk => ?_⟩
            obtain ⟨t, ht, rfl⟩ := List.mem_map.1 hj
            rw [List.mem_singleton.1 hk]
            exact hsymm _ _ (hordered.2 t ht)
          · rcases List.mem_append.1 ht with ht | ht
            · exact hactive t ht
            · rw [List.mem_singleton.1 ht]
              exact hproc i a.shared hordered.1 hadm hinv
      | advance n fail =>
        simp only [System.next] at hnext
        split at hnext
        · cases hnext
        · cases hnext
          refine ⟨hinv, hadm, ?_, fun t ht => hactive t (List.mem_of_mem_eraseIdx ht)⟩
          exact hapart.sublist ((List.eraseIdx_sublist _ _).map _)
        · rename_i i label act next hn
          cases hnext
          obtain ⟨hgood, hadm'⟩ := hordered i label act next hn
          obtain ⟨hinv', hpromise, hrest⟩ := hactive _ (List.mem_of_getElem? hn) a.shared ⟨hrefl i _, hadm, hadm⟩
            (fun _ => hinv) fail hgood
          have hkeys : (a.active.set n (i, next fail a.shared)).map (·.1) = a.active.map (·.1) := by
            refine List.ext_getElem? fun m => ?_
            rw [List.map_set, List.getElem?_set, List.length_map]
            split
            · rename_i hnm
              rw [← hnm, List.getElem?_map, hn]
              exact if_pos (List.getElem?_eq_some_iff.1 hn).1
            · rfl
          refine ⟨hinv' hadm', hadm', hkeys ▸ hapart, fun t ht => ?_⟩
          obtain ⟨m, hm⟩ := List.mem_iff_getElem?.1 ht
          rw [List.getElem?_set] at hm
          split at hm
          · rename_i hnm
            subst hnm
            split at hm
            · cases hm
              exact hrest
            · cases hm
          · rename_i hnm
            have hnm' : apart i t.1 := by
              have hpair : ∀ {k l : Nat} {u v : ι × Proc σ L ε α}, k < l → a.active[k]? = some u →
                a.active[l]? = some v → apart u.1 v.1 := by
                intro k l u v hkl hk hl
                obtain ⟨hlt, rfl⟩ := List.getElem?_eq_some_iff.1 hk
                obtain ⟨hlt', rfl⟩ := List.getElem?_eq_some_iff.1 hl
                exact List.pairwise_iff_getElem.1 (List.pairwise_map.1 hapart) k l hlt hlt' hkl
              rcases Nat.lt_or_gt_of_ne hnm with hlt | hlt
              · exact hpair hlt hn hm
              · exact hsymm _ _ (hpair hlt hm hn)
            refine (hactive t (List.mem_of_getElem? hm)).later (fun _ _ _ h h' =>
              ⟨htrans _ _ _ _ h.1 h'.1, h.2.1, h'.2.2⟩)
              (fun r a b hab => hpost t.1 r a b hab.1) ⟨hpromise t.1 hnm', hadm, hadm'⟩
  refine ⟨hall.1, fun i r hr => hall.2.2.2 (i, .done r) hr⟩

theorem Reach.of_run {a b : System ι σ L ε α} {es : List (Event ι)} (h : a.run locks proc es = some b)
    (started : ι → Prop) (hstarted : ∀ i, .start i ∈ es → started i) :
    Reach locks proc (System.Orderly started (fun _ _ => True) fun _ _ => True) a b := by
  induction es generalizing a with
  | nil =>
    cases h
    exact .refl
  | cons e es ih =>
    obtain ⟨c, hc, h⟩ := Option.bind_eq_some_iff.1 h
    refine .head ⟨e, ?_, hc⟩ (ih h fun i hi => hstarted i (List.mem_cons_of_mem _ hi))
    cases e with
    | start i => exact ⟨hstarted i List.mem_cons_self, fun _ _ _ => trivial⟩
    | advance n fail => exact fun _ _ _ _ _ => trivial

theorem Reach.of_goodAdvances {a b : System ι σ L ε α} {good : L → σ → Bool} {P : System ι σ L ε α → Event ι → Prop}
    (hP : ∀ sys n fail, sys.goodNow good (.advance n fail) = true → P sys (.advance n fail)) {ns : List Nat}
    (h : a.goodRun locks proc good (ns.map fun n => .advance n false) = some b) : Reach locks proc P a b := by
  induction ns generalizing a with
  | nil =>
    cases h
    exact .refl
  | cons n ns ih =>
    rw [List.map_cons, System.goodRun] at h
    split at h
    · rename_i hgood
      obtain ⟨c, hc, h⟩ := Option.bind_eq_some_iff.1 h
      exact .head ⟨.advance n false, hP a n false hgood, hc⟩ (ih h)
    · cases h

end Runs

end Interleave
