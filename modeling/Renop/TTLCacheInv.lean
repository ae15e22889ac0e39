import Mathlib.Data.List.Induction
import Mathlib.Data.Nat.Basic
import Mathlib.Order.Basic
import Renop.TTLCache

/-!
# What a cache serves after an invalidation

Generations are numbers of invalidations, so a value is out of date for an invalidation if it was born before its number.
`Fresh` says that no shard holds a value that is out of date for an invalidation that has returned. A store needs the current
generation, so all that comes later is born later (`Later`), and a shard that has been swept stays so. What is left is a load
that others join: it is not stored, but it is handed to all who wait for it.
-/

namespace Renop.TTLCache

open Interleave

variable {K V E : Type}

/-! ### The invariant -/

/-- A shard has no value that the invalidation was about. -/
def Swept (i : Invalidation K V) (l : List (Item K V)) :
    Prop := ∀ it ∈ l, i.covers it.key it.index = true → i.time ≤ it.born

structure Fresh [DecidableEq K] (cfg : Config K V) (w : Cache K V E) : Prop where
  capacity : ∀ j, (w.items j).length ≤ cfg.maxEntriesPerShard
  generation : w.generation = w.bumps % 2 ^ 64
  index : ∀ j, ∀ it ∈ w.items j, it.index = cfg.index it.value
  settled : ∀ i ∈ w.settled, i.time ≤ w.bumps ∧ ∀ k, Swept i ((w.items (cfg.shard k)).filter fun it => it.key = k)
  load : ∀ l ∈ w.loads, l.generation = l.born % 2 ^ 64 ∧ l.born ≤ w.bumps
  inFlight : ∀ p ∈ w.inFlight, p.2 < w.loads.length

/-- Entries are only added in the current generation, and a load keeps its birth and its result. -/
structure Later (w w' : Cache K V E) : Prop where
  bumps : w.bumps ≤ w'.bumps
  items : ∀ j, ∀ it ∈ w'.items j, it ∈ w.items j ∨ w.bumps ≤ it.born
  loads : ∀ (n : Nat) (l : Load V E), w.loads[n]? = some l → ∃ l' : Load V E, w'.loads[n]? = some l' ∧
    l'.born = l.born ∧ l'.generation = l.generation

namespace Later
variable {w w₁ w₂ : Cache K V E}

theorem refl (w : Cache K V E) : Later w w := ⟨le_refl _, fun _ _ h => .inl h, fun _ l h => ⟨l, h, rfl, rfl⟩⟩

theorem trans (h : Later w w₁) (h' : Later w₁ w₂) : Later w w₂ := by
  refine ⟨h.bumps.trans h'.bumps, fun j it hit => ?_, fun n l hl => ?_⟩
  · rcases h'.items j it hit with hit | hborn
    · exact h.items j it hit
    · exact .inr (h.bumps.trans hborn)
  · obtain ⟨l₁, hl₁, hb₁, hg₁⟩ := h.loads n l hl
    obtain ⟨l₂, hl₂, hb₂, hg₂⟩ := h'.loads n l₁ hl₁
    exact ⟨l₂, hl₂, hb₂.trans hb₁, hg₂.trans hg₁⟩

theorem swept {i : Invalidation K V} {j : Nat} (h : Later w w₁) (htime : i.time ≤ w.bumps) (hs : Swept i (w.items j)) :
    Swept i (w₁.items j) := by
  intro it hit hcovers
  rcases h.items j it hit with hit | hborn
  · exact hs it hit hcovers
  · exact htime.trans hborn

end Later

/-! ### Changes of a shard -/

section Changes
variable {w : Cache K V E}

theorem setShard_items (j j' : Nat) (l : List (Item K V)) :
    (w.setShard j l).items j' = if j' = j then l else w.items j' := by
  show Function.update w.items j l j' = _
  rw [Function.update_apply]

theorem oldest_mem {l : List (Item K V)} {b : Item K V} (h : oldest l = some b) : b ∈ l := by
  induction l using List.reverseRecOn generalizing b with
  | nil => simp [oldest] at h
  | append_singleton l it ih =>
    unfold oldest at h ih
    rw [List.foldl_append, List.foldl_cons, List.foldl_nil] at h
    split at h
    · cases h
      simp
    · rename_i b' hb'
      split at h
      · cases h
        simp
      · cases h
        simp [ih hb']

theorem oldest_none {l : List (Item K V)} (h : oldest l = none) : l = [] := by
  induction l using List.reverseRecOn with
  | nil => rfl
  | append_singleton l it ih =>
    unfold oldest at h
    rw [List.foldl_append, List.foldl_cons, List.foldl_nil] at h
    split at h
    · cases h
    · split at h <;> cases h

variable [DecidableEq K] {cfg : Config K V}

theorem Fresh.setShard (hw : Fresh cfg w) {j : Nat} {l : List (Item K V)} (hlen : l.length ≤ cfg.maxEntriesPerShard)
    (hl : ∀ it ∈ l, it ∈ w.items j ∨ (it.index = cfg.index it.value ∧ it.born = w.bumps)) :
    Fresh cfg (w.setShard j l) ∧ Later w (w.setShard j l) := by
  refine ⟨⟨fun j' => ?_, hw.generation, fun j' it hit => ?_, fun i hi => ?_, hw.load, hw.inFlight⟩, le_refl _,
    fun j' it hit => ?_, fun _ l h => ⟨l, h, rfl, rfl⟩⟩
  · rw [setShard_items]
    split
    · exact hlen
    · exact hw.capacity j'
  · rw [setShard_items] at hit
    split at hit
    · rcases hl it hit with hit | ⟨hindex, -⟩
      · exact hw.index j it hit
      · exact hindex
    · exact hw.index j' it hit
  · obtain ⟨htime, hswept⟩ := hw.settled i hi
    refine ⟨htime, fun k it hit hcovers => ?_⟩
    obtain ⟨hit, hk⟩ := List.mem_filter.1 hit
    rw [setShard_items] at hit
    split at hit
    · rename_i hj
      rcases hl it hit with hit | ⟨-, hborn⟩
      · exact hswept k it (List.mem_filter.2 ⟨hj ▸ hit, hk⟩) hcovers
      · rw [hborn]
        exact htime
    · exact hswept k it (List.mem_filter.2 ⟨hit, hk⟩) hcovers
  · rw [setShard_items] at hit
    split at hit
    · rename_i hj
      rcases hl it hit with hit | ⟨-, hborn⟩
      · exact .inl (hj ▸ hit)
      · exact .inr hborn.ge
    · exact .inl hit

theorem Fresh.filterShard (hw : Fresh cfg w) (j : Nat) (p : Item K V → Bool) :
    Fresh cfg (w.setShard j ((w.items j).filter p)) ∧ Later w (w.setShard j ((w.items j).filter p)) :=
  hw.setShard ((List.length_filter_le _ _).trans (hw.capacity j)) fun _ h => .inl (List.mem_of_mem_filter h)

theorem evict_sublist (now : Int) (l : List (Item K V)) : (evict cfg now l).Sublist l := by
  unfold evict
  split
  · exact List.Sublist.refl l
  · dsimp only
    split
    · exact List.filter_sublist
    · split
      · exact List.filter_sublist
      · exact List.filter_sublist.trans List.filter_sublist

theorem evict_length (now : Int) {l : List (Item K V)} (hl : l.length ≤ cfg.maxEntriesPerShard) :
    (evict cfg now l).length < cfg.maxEntriesPerShard := by
  unfold evict
  split
  · assumption
  · dsimp only
    split
    · assumption
    · have hlen := (List.length_filter_le (fun it : Item K V => decide (it.expiredAt ≥ now)) l).trans hl
      split
      · rename_i hnone
        rw [oldest_none hnone]
        exact cfg.capacity_pos
      · rename_i b hb
        refine lt_of_lt_of_le ?_ hlen
        exact List.length_filter_lt_length_iff_exists.2 ⟨b, oldest_mem hb, by simp⟩

theorem setLocked_fresh (hw : Fresh cfg w) (key : K) (v : V) (ttl : Int) {born : Nat}
    (hborn : born = w.bumps) : Fresh cfg (setLocked cfg key v ttl born w) ∧ Later w (setLocked cfg key v ttl born w) := by
  unfold setLocked
  dsimp only
  refine hw.setShard ?_ fun it hit => ?_
  · rw [List.length_append, List.length_singleton]
    split
    · -- the entry before makes room
      rename_i hany
      obtain ⟨it, hit, hk⟩ := List.any_eq_true.1 hany
      have hlt : ((w.items (cfg.shard key)).filter fun it => it.key ≠ key).length < (w.items (cfg.shard key)).length :=
        List.length_filter_lt_length_iff_exists.2 ⟨it, hit, by simpa using hk⟩
      exact hlt.trans_le (hw.capacity _)
    · exact Nat.succ_le_of_lt ((List.length_filter_le _ _).trans_lt (evict_length _ (hw.capacity _)))
  · rcases List.mem_append.1 hit with hit | hit
    · replace hit := List.mem_of_mem_filter hit
      split at hit
      · exact .inl hit
      · exact .inl ((evict_sublist _ _).subset hit)
    · rw [List.mem_singleton.1 hit]
      exact .inr ⟨rfl, hborn⟩

end Changes

/-! ### The calls -/

section Calls
variable [DecidableEq K] {cfg : Config K V} {α : Type} {w : Cache K V E}

/-- What a call knows of the key after it has begun. -/
def Clean (cfg : Config K V) (key : K) (since : List (Invalidation K V)) (w : Cache K V E) : Prop :=
  ∀ i ∈ since, i.time ≤ w.bumps ∧ Swept i ((w.items (cfg.shard key)).filter fun it => it.key = key)

/-- A value that none of the invalidations was about. -/
def UpToDate (cfg : Config K V) (key : K) (since : List (Invalidation K V)) (v : V) (born : Nat) : Prop :=
  ∀ i ∈ since, i.covers key (cfg.index v) = true → i.time ≤ born

theorem Clean.later {key : K} {since : List (Invalidation K V)} {w' : Cache K V E} (hle : Later w w')
    (h : Clean cfg key since w) :
    Clean cfg key since w' := by
  intro i hi
  obtain ⟨htime, hswept⟩ := h i hi
  refine ⟨htime.trans hle.bumps, fun it hit hcovers => ?_⟩
  obtain ⟨hit, hk⟩ := List.mem_filter.1 hit
  rcases hle.items _ it hit with hit | hborn
  · exact hswept it (List.mem_filter.2 ⟨hit, hk⟩) hcovers
  · exact htime.trans hborn

theorem find_eq_some {key : K} {it : Item K V} (h : w.find cfg key = some it) :
    it ∈ w.items (cfg.shard key) ∧ it.key = key := by
  unfold Cache.find at h
  have hkey := List.find?_some h
  exact ⟨List.mem_of_find?_eq_some h, of_decide_eq_true hkey⟩

theorem Clean.upToDate {key : K} {since : List (Invalidation K V)} (hw : Fresh cfg w) (h : Clean cfg key since w)
    {it : Item K V} (hfind : w.find cfg key = some it) : UpToDate cfg key since it.value it.born := by
  intro i hi hcovers
  obtain ⟨hmem, hkey⟩ := find_eq_some hfind
  have hswept := (h i hi).2 it (List.mem_filter.2 ⟨hmem, decide_eq_true hkey⟩)
  rw [hw.index _ it hmem, hkey] at hswept
  exact hswept hcovers

/-- Whatever the others do, a call keeps the cache fresh, and what it returns is as `post` says. -/
abbrev Ensures (cfg : Config K V) (p : Call K V E α) (post : α → Cache K V E → Prop) (w : Cache K V E) : Prop :=
  p.Ensures Later (Fresh cfg) (fun step w => (enabled step w && careful cfg step w) = true) post w

theorem Ensures.read {f : Cache K V E → α} {post : α → Cache K V E → Prop}
    (h : ∀ t, Later w t → Fresh cfg t → post (f t) t) :
    Ensures cfg (read f) post w :=
  .atomic fun t _ hle hw _ => ⟨hw, .refl t, h t hle hw⟩

theorem Ensures.update {f : Cache K V E → Cache K V E} {post : Unit → Cache K V E → Prop}
    (h : ∀ t, Later w t → Fresh cfg t → Fresh cfg (f t) ∧ Later t (f t) ∧ post () (f t)) :
      Ensures cfg (update f) post w :=
  .atomic fun t _ hle hw _ => h t hle hw

/-- What `get` has found out when it returns. -/
def Got (cfg : Config K V) (key : K) (r : List (Invalidation K V) × Option (V × Nat)) (w : Cache K V E) : Prop :=
  Clean cfg key r.1 w ∧ ∀ v born, r.2 = some (v, born) → UpToDate cfg key r.1 v born

theorem get_ensures (key : K) (w : Cache K V E) : Ensures cfg (get cfg key) (Got cfg key) w := by
  have hnone : ∀ since w, Clean cfg key since w → Ensures cfg (Proc.done (.ok (since, none)) : Call K V E _)
      (Got cfg key) w :=
    fun since w h => .pure ⟨h, fun _ _ hr => nomatch hr⟩
  have hbegin : Ensures cfg (read fun w => (w.generation, w.settled)) (fun r w => Clean cfg key r.2 w) w := by
    refine .read fun t _ hw i hi => ?_
    obtain ⟨htime, hswept⟩ := hw.settled i hi
    exact ⟨htime, hswept key⟩
  refine hbegin.bind fun ⟨generation, since⟩ w hclean => ?_
  have hfind : Ensures cfg (read fun w => w.find cfg key)
      (fun r w => Clean cfg key since w ∧ ∀ it, r = some it → UpToDate cfg key since it.value it.born) w := by
    refine .read fun t hle hw => ⟨hclean.later hle, fun it hit => ?_⟩
    exact (hclean.later hle).upToDate hw hit
  refine hfind.bind fun r w h => ?_
  cases r with
  | none => exact hnone since w h.1
  | some item =>
    obtain ⟨hclean, hitem⟩ := h
    have hnow : Ensures cfg (read fun w => w.now) (fun _ w => Clean cfg key since w) w := .read fun t hle _ =>
      hclean.later hle
    refine hnow.bind fun now w hclean => ?_
    split
    · have hremove : Ensures cfg (update (removeExpired cfg key now)) (fun _ w => Clean cfg key since w) w := by
        refine .update fun t hle hw => ?_
        obtain ⟨hw', hle'⟩ := hw.filterShard (cfg.shard key) fun it => !(it.key = key && it.expiredAt < now)
        exact ⟨hw', hle', (hclean.later hle).later hle'⟩
      exact hremove.bind fun _ w hclean => hnone since w hclean
    · have hvalid : Ensures cfg (Proc.atomic .other fun fail w => (!(cfg.external && fail), w))
          (fun _ w => Clean cfg key since w) w := .atomic fun t _ hle hw _ => ⟨hw, .refl t, hclean.later hle⟩
      refine hvalid.bind fun valid w hclean => ?_
      have hcurrent : Ensures cfg (read fun w => w.generation) (fun _ w => Clean cfg key since w) w :=
        .read fun t hle _ => hclean.later hle
      refine hcurrent.bind fun current w hclean => ?_
      split
      · refine .pure ⟨hclean, fun v born hr => ?_⟩
        obtain ⟨rfl, rfl⟩ := Prod.mk.inj (Option.some.inj hr)
        exact hitem item rfl
      · exact hnone since w hclean

/-! #### A load -/

/-- What the first section of a load leaves with the caller. -/
def Looked (cfg : Config K V) (key : K) (since : List (Invalidation K V)) (found : Found V) (w : Cache K V E) : Prop :=
  match found with
  | .value v born => UpToDate cfg key since v born
  | .pending n => ∃ l, w.loads[n]? = some l ∧ ∀ v, UpToDate cfg key since v l.born
  | .load n born => (∃ l, w.loads[n]? = some l ∧ l.born = born) ∧ ∀ v, UpToDate cfg key since v born

theorem careful_lookup {key : K} {since : List (Invalidation K V)} {n : Nat} {l : Load V E}
    (hcareful : careful cfg (.lookup key since) w = true)
    (hfind : ((w.find cfg key).any fun it => w.now ≤ it.expiredAt && !cfg.external) = false)
    (hn : w.inFlight.lookup key = some n) (hl : w.loads[n]? = some l) (v : V) : UpToDate cfg key since v l.born := by
  intro i hi hcovers
  simp only [careful, hfind, hn, hl, Option.bind_some, Bool.false_or, List.all_eq_true, Bool.or_eq_true, Bool.and_eq_true,
    decide_eq_true_eq] at hcareful
  rcases hcareful i hi with ⟨hsome, hne⟩ | htime
  · obtain ⟨k, hk⟩ := Option.isSome_iff_exists.1 hsome
    have := i.only_key k hk key _ hcovers
    exact absurd (hk.trans (congrArg some this.symm)) hne
  · exact htime

theorem Fresh.begin (hw : Fresh cfg w) (key : K) :
    Fresh cfg { w with inFlight := (key, w.loads.length) :: w.inFlight, loads :=
      w.loads ++ [⟨w.generation, w.bumps, none⟩] }
      ∧
      Later w { w with inFlight := (key, w.loads.length) :: w.inFlight, loads :=
          w.loads ++ [⟨w.generation, w.bumps, none⟩] } := by
  refine ⟨⟨hw.capacity, hw.generation, hw.index, hw.settled, fun l hl => ?_, fun p hp => ?_⟩, le_refl _,
    fun _ _ h => .inl h, fun n l hl => ?_⟩
  · rcases List.mem_append.1 hl with hl | hl
    · exact hw.load l hl
    · rw [List.mem_singleton.1 hl]
      exact ⟨hw.generation, le_refl _⟩
  · show p.2 < (w.loads ++ _).length
    rw [List.length_append, List.length_singleton]
    rcases List.mem_cons.1 hp with rfl | hp
    · exact Nat.lt_succ_self _
    · exact Nat.lt_succ_of_lt (hw.inFlight p hp)
  · refine ⟨l, ?_, rfl, rfl⟩
    show (w.loads ++ _)[n]? = some l
    rw [List.getElem?_append_left (List.getElem?_eq_some_iff.1 hl).1]
    exact hl

theorem lookup_miss {key : K} {since : List (Invalidation K V)} (hw : Fresh cfg w) (hclean : Clean cfg key since w)
    (hjoin : ∀ n l, w.inFlight.lookup key = some n → w.loads[n]? = some l → ∀ v, UpToDate cfg key since v l.born)
    {r : Found V × Cache K V E} (hr : r = match w.inFlight.lookup key with
      | some n => (.pending n, w)
      | none => (.load w.loads.length w.bumps,
        { w with inFlight := (key, w.loads.length) :: w.inFlight, loads := w.loads ++ [⟨w.generation, w.bumps, none⟩] }))
          :
    Fresh cfg r.2 ∧ Later w r.2 ∧ Looked cfg key since r.1 r.2 := by
  subst hr
  cases hn : w.inFlight.lookup key with
  | some n =>
    have hlt : n < w.loads.length := hw.inFlight (key, n)
      (List.lookup_eq_some_iff.1 hn |> fun ⟨l₁, l₂, h, _⟩ => by simp [h])
    exact ⟨hw, .refl w, w.loads[n], List.getElem?_eq_getElem hlt, hjoin n _ hn (List.getElem?_eq_getElem hlt)⟩
  | none =>
    obtain ⟨hw', hle⟩ := hw.begin key
    refine ⟨hw', hle, ⟨⟨w.generation, w.bumps, none⟩, ?_, rfl⟩, fun v i hi _ => (hclean i hi).1⟩
    show (w.loads ++ _)[w.loads.length]? = _
    rw [List.getElem?_append_right (le_refl _), Nat.sub_self]
    rfl

theorem lookup_ensures {key : K} {since : List (Invalidation K V)} (hclean : Clean cfg key since w) :
    Ensures cfg (Proc.atomic (.lookup key since) fun fail w => lookup cfg key fail w) (Looked cfg key since) w := by
  refine .atomic fun t fail hle hw hcareful => ?_
  replace hclean := hclean.later hle
  unfold lookup
  dsimp only
  cases hfind : t.find cfg key with
  | none =>
    refine lookup_miss hw hclean (fun n l hn hl => careful_lookup hcareful ?_ hn hl) rfl
    rw [hfind]
    rfl
  | some it =>
    dsimp only
    split
    · rename_i hlive
      split
      · rename_i hfail
        refine lookup_miss hw hclean (fun n l hn hl => careful_lookup hcareful ?_ hn hl) rfl
        obtain ⟨hexternal, -⟩ := (Bool.and_eq_true _ _).mp hfail
        rw [hfind, Option.any_some, hexternal]
        exact Bool.and_false _
      · exact ⟨hw, .refl t, hclean.upToDate hw hfind⟩
    · rename_i hexpired
      obtain ⟨hw', hle'⟩ := hw.filterShard (cfg.shard key) fun it => it.key ≠ key
      have hmiss := lookup_miss hw' (hclean.later hle')
        (fun n l hn hl => careful_lookup hcareful (by rw [hfind, Option.any_some, decide_eq_false hexpired]; rfl) hn hl) rfl
      exact ⟨hmiss.1, hle'.trans hmiss.2.1, hmiss.2.2⟩

theorem good_store {born : Nat} (h : (enabled (.store born) w && careful cfg (.store born) w) = true) :
    w.bumps < born + 2 ^ 64 := by
  simpa only [enabled, careful, Bool.true_and, decide_eq_true_eq] using h

/-- The result is published, and stored if no invalidation came between. -/
theorem finish_fresh (hw : Fresh cfg w) (key : K) {n born : Nat} (outcome : Outcome V E)
    {l : Load V E} (hl : w.loads[n]? = some l) (hborn : l.born = born) (hround : w.bumps < born + 2 ^ 64) :
    Fresh cfg (finish cfg key n born outcome w) ∧ Later w (finish cfg key n born outcome w) := by
  have hpublish : ∀ t : Cache K V E, Fresh cfg t → Later w t → t.loads = w.loads → t.inFlight = w.inFlight →
      Fresh cfg { t with
        loads := w.loads.modify n fun l => { l with result := some outcome.result }
        inFlight := w.inFlight.filter fun p => p.1 ≠ key } ∧
      Later w { t with
        loads := w.loads.modify n fun l => { l with result := some outcome.result }
        inFlight := w.inFlight.filter fun p => p.1 ≠ key } := by
    intro t ht hle hloads hflight
    refine ⟨⟨ht.capacity, ht.generation, ht.index, ht.settled, fun l' hl' => ?_, fun p hp => ?_⟩, hle.bumps, hle.items,
      fun m l' hl' => ?_⟩
    · obtain ⟨m, hm⟩ := List.mem_iff_getElem?.1 hl'
      rw [List.getElem?_modify] at hm
      obtain ⟨l₀, hl₀, rfl⟩ := Option.map_eq_some_iff.1 hm
      have hmem : l₀ ∈ t.loads := hloads ▸ List.mem_of_getElem? hl₀
      split <;> exact ht.load l₀ hmem
    · show p.2 < (w.loads.modify n _).length
      rw [List.length_modify]
      exact hw.inFlight p (List.mem_of_mem_filter hp)
    · refine ⟨if n = m then { l' with result := some outcome.result } else l', ?_, ?_, ?_⟩
      · show (w.loads.modify n _)[m]? = _
        rw [List.getElem?_modify, hl']
        rfl
      · split <;> rfl
      · split <;> rfl
  unfold finish
  cases outcome with
  | error e => exact hpublish w hw (.refl w) rfl rfl
  | panic e => exact hpublish w hw (.refl w) rfl rfl
  | value v ttl =>
    dsimp only
    split
    · rename_i hcurrent
      have hcur : l.generation = w.generation := by simpa [hl] using hcurrent
      have hbumps : born = w.bumps := by
        obtain ⟨hgeneration, hle⟩ := hw.load l (List.mem_of_getElem? hl)
        have hnow := hw.generation
        omega
      obtain ⟨hw', hle⟩ := setLocked_fresh hw key v ttl hbumps
      exact hpublish _ hw' hle rfl rfl
    · exact hpublish w hw (.refl w) rfl rfl

/-- What a value in a reply has to be. -/
def Answered (cfg : Config K V) (key : K) (r : Reply K V E) : Prop :=
  ∀ v born, r.answer = .value v born → UpToDate cfg key r.since v born

theorem getOrLoad_ensures (key : K) (outcome : Outcome V E) (w : Cache K V E) :
    Ensures cfg (getOrLoad cfg key outcome) (fun r _ => Answered cfg key r) w := by
  refine (get_ensures key w).bind fun ⟨since, hit⟩ w ⟨hclean, hhit⟩ => ?_
  cases hit with
  | some p =>
    refine .pure fun v born hr => ?_
    cases hr
    exact hhit p.1 p.2 rfl
  | none =>
    refine (lookup_ensures hclean).bind fun found w hfound => ?_
    cases found with
    | value v born =>
      refine .pure fun v' born' hr => ?_
      cases hr
      exact hfound
    | pending n =>
      obtain ⟨l, hl, hup⟩ := hfound
      -- the load keeps its birth until it is done
      have hwait : Ensures cfg (Proc.atomic (.wait n) fun _ w => (w.loads[n]?, w))
          (fun r _ => ∀ l', r = some l' → ∀ v, UpToDate cfg key since v l'.born) w := by
        refine .atomic fun t _ hle hw _ => ⟨hw, .refl t, fun l' hl' v => ?_⟩
        obtain ⟨l₁, hl₁, hborn, -⟩ := hle.loads n l hl
        rw [hl₁] at hl'
        rw [← Option.some.inj hl', hborn]
        exact hup v
      refine hwait.bind fun r w hr => ?_
      split
      · refine .pure fun v born h => ?_
        cases h
        exact hr _ rfl _
      · exact .pure fun v born h => nomatch h
      · exact .pure fun v born h => nomatch h
    | load n born =>
      obtain ⟨hload, hup⟩ := hfound
      have hloader : Ensures cfg (read fun _ => ()) (fun _ w => ∃ l : Load V E, w.loads[n]? = some l ∧
          l.born = born) w := by
        refine .read fun t hle _ => ?_
        obtain ⟨l, hl, hborn⟩ := hload
        obtain ⟨l₁, hl₁, hborn₁, -⟩ := hle.loads n l hl
        exact ⟨l₁, hl₁, hborn₁.trans hborn⟩
      refine hloader.bind fun _ w hload => ?_
      have hfinish : Ensures cfg (Proc.atomic (.store born) fun _ w => ((), finish cfg key n born outcome w))
          (fun _ _ => True) w := by
        refine .atomic fun t _ hle hw hgood => ?_
        obtain ⟨l, hl, hborn⟩ := hload
        obtain ⟨l₁, hl₁, hborn₁, -⟩ := hle.loads n l hl
        obtain ⟨hw', hle'⟩ := finish_fresh hw key outcome hl₁ (hborn₁.trans hborn) (good_store hgood)
        exact ⟨hw', hle', trivial⟩
      refine hfinish.bind fun _ w _ => ?_
      cases outcome with
      | value v ttl =>
        refine .pure fun v' born' h => ?_
        cases h
        exact hup v
      | error e => exact .pure fun v born h => nomatch h
      | panic e => exact .pure fun v born h => nomatch h

/-! #### The other calls -/

theorem setIfGeneration_ensures (key : K) (v : V) (ttl : Int) (w : Cache K V E) :
    Ensures cfg (setIfGeneration cfg key v ttl) (fun _ _ => True) w := by
  have hgeneration : Ensures cfg (read fun w => (w.generation, w.bumps)) (fun r w => r.1 = r.2 % 2 ^ 64 ∧
      r.2 ≤ w.bumps) w :=
    .read fun t _ hw => ⟨hw.generation, le_refl _⟩
  refine hgeneration.bind fun ⟨generation, born⟩ w ⟨hgen, hborn⟩ => ?_
  have hload : Ensures cfg (read fun _ => ()) (fun _ w => born ≤ w.bumps) w := .read fun t hle _ => hborn.trans hle.bumps
  refine hload.bind fun _ w hborn => ?_
  refine .atomic fun t _ hle hw hgood => ?_
  split
  · rename_i hcurrent
    have hbumps : born = t.bumps := by
      have hnow := hw.generation
      have hlater := hborn.trans hle.bumps
      have hround := good_store hgood
      omega
    obtain ⟨hw', hle'⟩ := setLocked_fresh hw key v ttl hbumps
    exact ⟨hw', hle', trivial⟩
  · exact ⟨hw, .refl t, trivial⟩

/-- The shards that have been swept so far. -/
def SweptShards (i : Invalidation K V) (swept : List Nat) (w : Cache K V E) : Prop :=
  i.time ≤ w.bumps ∧ ∀ j ∈ swept, Swept i (w.items j)

omit [DecidableEq K] in
theorem SweptShards.later {i : Invalidation K V} {swept : List Nat} {w' : Cache K V E} (hle : Later w w')
    (h : SweptShards i swept w) :
    SweptShards i swept w' :=
  ⟨h.1.trans hle.bumps, fun j hj => hle.swept h.1 (h.2 j hj)⟩

theorem Fresh.settle (hw : Fresh cfg w) {i : Invalidation K V} {swept : List Nat} (hi : SweptShards i swept w)
    (hscope : ∀ k v, i.covers k v = true → cfg.shard k ∈ swept) :
    Fresh cfg { w with settled := i :: w.settled } ∧ Later w { w with settled := i :: w.settled } := by
  refine ⟨⟨hw.capacity, hw.generation, hw.index, fun i' hi' => ?_, hw.load, hw.inFlight⟩, le_refl _,
    fun _ _ h => .inl h, fun _ l h => ⟨l, h, rfl, rfl⟩⟩
  rcases List.mem_cons.1 hi' with rfl | hi'
  · refine ⟨hi.1, fun k it hit hcovers => ?_⟩
    obtain ⟨hit, hk⟩ := List.mem_filter.1 hit
    have hk : it.key = k := of_decide_eq_true hk
    exact hi.2 _ (hk ▸ hscope _ _ hcovers) it hit hcovers
  · exact hw.settled i' hi'

theorem sweep_ensures {scope : Scope K V} {time : Nat} (shards : List Nat) {swept : List Nat}
    (hscope : ∀ k v, scope.covers k v = true → cfg.shard k ∈ swept ∨ cfg.shard k ∈ shards)
    (h : SweptShards ⟨scope, time⟩ swept w) :
    Ensures cfg (shards.foldr (fun j rest => do update (removeMatching j scope.covers); rest)
      (update fun w => { w with settled := ⟨scope, time⟩ :: w.settled })) (fun _ _ => True) w := by
  induction shards generalizing swept w with
  | nil =>
    refine .update fun t hle hw => ?_
    obtain ⟨hw', hle'⟩ := hw.settle (h.later hle) fun k v hcovers => (hscope k v hcovers).resolve_right (List.not_mem_nil)
    exact ⟨hw', hle', trivial⟩
  | cons j shards ih =>
    have hremove : Ensures cfg (update (removeMatching j scope.covers))
      (fun _ w => SweptShards ⟨scope, time⟩ (j :: swept) w)
        w := by
      refine .update fun t hle hw => ?_
      obtain ⟨hw', hle'⟩ := hw.filterShard j fun it => !scope.covers it.key it.index
      have hswept := (h.later hle).later hle'
      refine ⟨hw', hle', hswept.1, fun j' hj' => ?_⟩
      rcases List.mem_cons.1 hj' with rfl | hj'
      · intro it hit hcovers
        have hit : it ∈ (t.items j').filter fun it => !scope.covers it.key it.index := by
          simpa [removeMatching, setShard_items] using hit
        exact absurd hcovers (by simpa using (List.mem_filter.1 hit).2)
      · exact hswept.2 j' hj'
    refine hremove.bind fun _ w hswept => ih (fun k v hcovers => ?_) hswept
    rcases hscope k v hcovers with hk | hk
    · exact .inl (List.mem_cons_of_mem j hk)
    · rcases List.mem_cons.1 hk with hk | hk
      · exact .inl (hk ▸ List.mem_cons_self)
      · exact .inr hk

theorem invalidate_ensures (scope : Scope K V) {shards : List Nat}
    (hscope : ∀ k v, scope.covers k v = true → cfg.shard k ∈ shards) (w : Cache K V E) :
    Ensures cfg (invalidate scope shards) (fun _ _ => True) w := by
  have hbump : Ensures cfg
      (Proc.atomic .other fun _ w => (w.bumps + 1, { w with generation := (w.generation + 1) % 2 ^ 64, bumps :=
        w.bumps + 1 }))
      (fun time w => SweptShards ⟨scope, time⟩ [] w) w := by
    refine .atomic fun t _ _ hw _ => ?_
    have hgeneration : (t.generation + 1) % 2 ^ 64 = (t.bumps + 1) % 2 ^ 64 := by
      have := hw.generation
      omega
    refine ⟨⟨hw.capacity, hgeneration, hw.index, fun i hi => ?_, fun l hl => ?_, hw.inFlight⟩,
      ⟨Nat.le_succ _, fun _ _ h => .inl h, fun _ l h => ⟨l, h, rfl, rfl⟩⟩, le_refl _, by simp⟩
    · exact ⟨(hw.settled i hi).1.trans (Nat.le_succ _), (hw.settled i hi).2⟩
    · exact ⟨(hw.load l hl).1, (hw.load l hl).2.trans (Nat.le_succ _)⟩
  exact hbump.bind fun time w h => sweep_ensures shards (fun k v hcovers => .inr (hscope k v hcovers)) h

omit [DecidableEq K] in
theorem shard_mem_range (k : K) : cfg.shard k ∈ List.range numShards := List.mem_range.2 (Nat.mod_lt _ (by decide))

theorem call_ensures (req : Request K V E) (w : Cache K V E) :
    Ensures cfg (call cfg req) (fun r _ => ∀ key ∈ req.key, Answered cfg key r) w := by
  cases req with
  | get key =>
    refine (get_ensures key w).bind fun ⟨since, hit⟩ w ⟨_, hhit⟩ => .pure fun k hk => ?_
    cases hk
    intro v born hr
    cases hit with
    | none => exact nomatch hr
    | some p =>
      cases hr
      exact hhit p.1 p.2 rfl
  | getOrLoad key outcome =>
    refine (getOrLoad_ensures key outcome w).mono fun r _ hr k hk => ?_
    cases hk
    exact hr
  | setIfGeneration key v ttl => exact (setIfGeneration_ensures key v ttl w).bind fun _ _ _ => .pure fun _ hk => nomatch hk
  | delete key =>
    refine (invalidate_ensures _ (fun k v hk => ?_) w).bind fun _ _ _ => .pure fun _ hk => nomatch hk
    rw [of_decide_eq_true hk]
    exact List.mem_singleton_self _
  | clear => exact (invalidate_ensures _ (fun k _ _ => shard_mem_range k) w).bind fun _ _ _ => .pure fun _ hk => nomatch hk
  | deleteFunc predicate =>
    exact (invalidate_ensures _ (fun k _ _ => shard_mem_range k) w).bind fun _ _ _ => .pure fun _ hk => nomatch hk
  | clock now =>
    have hclock : Ensures cfg (update fun w => { w with now }) (fun _ _ => True) w :=
      .update fun t _ hw => ⟨⟨hw.capacity, hw.generation, hw.index, hw.settled, hw.load, hw.inFlight⟩,
        ⟨le_refl _, fun _ _ h => .inl h, fun _ l h => ⟨l, h, rfl, rfl⟩⟩, trivial⟩
    exact hclock.bind fun _ _ _ => .pure fun _ hk => nomatch hk

end Calls

/-! ### Interleaved calls -/

section Runs
variable [DecidableEq K]

/-- The calls under way and the cache, after any number of steps that are all `ok`. -/
def Reachable (cfg : Config K V) (ok : Step K V → Cache K V E → Bool) :
    System (Request K V E) (Cache K V E) (Step K V) Empty (Reply K V E) → Prop :=
  Reach (fun _ => false) (call cfg) (System.Good fun step w => ok step w = true) ⟨Cache.empty, []⟩

/-- No shard has too many entries, and a value that a call returns is one whose loading began after every invalidation of it
that had returned when the call began. -/
def NeverStale (cfg : Config K V) (sys : System (Request K V E) (Cache K V E) (Step K V) Empty (Reply K V E)) : Prop :=
  (∀ j, (sys.shared.items j).length ≤ cfg.maxEntriesPerShard) ∧
    ∀ req r key, (req, .done (.ok r)) ∈ sys.active → req.key = some key → Answered cfg key r

theorem Fresh.empty (cfg : Config K V) : Fresh cfg (Cache.empty : Cache K V E) :=
  ⟨fun _ => Nat.zero_le _, rfl, fun _ _ h => absurd h List.not_mem_nil, fun _ h => absurd h List.not_mem_nil,
    fun _ h => absurd h List.not_mem_nil, fun _ h => absurd h List.not_mem_nil⟩

theorem cache_never_stale (cfg : Config K V) {sys : System (Request K V E) (Cache K V E) (Step K V) Empty (Reply K V E)}
    (h : Reachable cfg (fun step w => enabled step w && careful cfg step w) sys) : NeverStale cfg sys := by
  have hkeeps := Reach.keeps Later (Fresh cfg)
    (fun (req : Request K V E) r _ => ∀ a, r = .ok a → ∀ key ∈ req.key, Answered cfg key a) Later.refl
    (fun _ _ _ => Later.trans) (fun _ _ _ _ _ h => h) (fun req w _ => call_ensures req w) (Fresh.empty cfg) h
  refine ⟨hkeeps.1.capacity, fun req r key hmem hkey => ?_⟩
  have hdone : ∀ a, Except.ok r = .ok a → ∀ key ∈ req.key, Answered cfg key a := hkeeps.2 _ hmem
  exact hdone r rfl key (Option.mem_def.2 hkey)

end Runs

/-- The calls that have returned a value: the key, the times of the invalidations of it before the call, the value, and when
its loading began. -/
def served (cfg : Config K V) (sys : System (Request K V E) (Cache K V E) (Step K V) Empty (Reply K V E)) :
    List (K × List Nat × V × Nat) :=
  sys.active.filterMap fun t => match t with
    | (req, .done (.ok ⟨since, .value v born⟩)) =>
      req.key.map fun key => (key, (since.filter fun i => i.covers key (cfg.index v)).map fun i => i.time, v, born)
    | _ => none

theorem exists_of_served {cfg : Config K V} {sys : System (Request K V E) (Cache K V E) (Step K V) Empty (Reply K V E)}
    {key : K} {times : List Nat} {v : V} {born : Nat} (h : (key, times, v, born) ∈ served cfg sys) :
    ∃ req since, (req, .done (.ok ⟨since, .value v born⟩)) ∈ sys.active ∧ req.key = some key ∧
      times = (since.filter fun i => i.covers key (cfg.index v)).map fun i => i.time := by
  obtain ⟨t, hmem, ht⟩ := List.mem_filterMap.1 h
  split at ht
  · obtain ⟨k, hk, hr⟩ := Option.map_eq_some_iff.1 ht
    cases hr
    exact ⟨_, _, hmem, hk, rfl⟩
  · cases ht

/-- A cache with two entries in a shard. -/
def small : Config Nat Nat := newTTLCacheWithCapacity 60000 64 id

/-- A call that runs to its end. -/
def whole (n steps : Nat) (req : Request Nat Nat Empty) : List (Event (Request Nat Nat Empty)) :=
  .start req :: List.replicate steps (.advance n false)

/-- A value is loaded, kept, removed by `Delete` and loaded again. -/
theorem cache_never_stale_reloaded :
    ∃ sys, Reachable (E := Empty) small (fun step w => enabled step w && careful small step w) sys ∧
      served small sys = [(1, [], 7, 0), (1, [], 7, 0), (1, [1], 8, 1)] ∧ NeverStale small sys := by
  have hrun : (System.goodRun (fun _ => false) (call small) (fun step w => enabled step w && careful small step w)
    ⟨Cache.empty, []⟩ (whole 0 5 (.getOrLoad 1 (.value 7 0)) ++ whole 1 5 (.get 1) ++ whole 2 3 (.delete 1) ++
        whole 3 5 (.getOrLoad 1 (.value 8 0)))).map (served small) = some [(1, [], 7, 0), (1, [], 7, 0), (1, [1], 8, 1)] := by
    decide
  obtain ⟨sys, hsys, hserved⟩ := Option.map_eq_some_iff.1 hrun
  have hreach := Reach.of_goodRun hsys
  exact ⟨sys, hreach, hserved, cache_never_stale small hreach⟩

/-- A load begins, `Delete` returns, and a call that begins after it joins the load and gets its value. -/
theorem cache_stale :
    ¬∀ sys : System (Request Nat Nat Empty) (Cache Nat Nat Empty) (Step Nat Nat) Empty (Reply Nat Nat Empty),
      Reachable small enabled sys → NeverStale small sys := by
  intro hall
  have hrun : (System.goodRun (fun _ => false) (call small) enabled ⟨Cache.empty, []⟩
      (whole 0 3 (.getOrLoad 1 (.value 7 0)) ++ whole 1 3 (.delete 1) ++ whole 2 3 (.getOrLoad 1 (.value 8 0)) ++
        [.advance 0 false, .advance 0 false, .advance 2 false])).map (served small) =
            some [(1, [], 7, 0), (1, [1], 7, 0)] := by
    decide
  obtain ⟨sys, hsys, hserved⟩ := Option.map_eq_some_iff.1 hrun
  have hmem : (1, [1], 7, 0) ∈ served small sys := by
    rw [hserved]
    decide
  obtain ⟨req, since, hmem, hkey, htimes⟩ := exists_of_served hmem
  have htime : 1 ∈ (since.filter fun i => i.covers 1 (small.index 7)).map fun i => i.time :=
    htimes ▸ List.mem_singleton_self 1
  obtain ⟨i, hi, hone⟩ := List.mem_map.1 htime
  obtain ⟨hi, hcovers⟩ := List.mem_filter.1 hi
  have hup := (hall sys (Reach.of_goodRun hsys)).2 req _ 1 hmem hkey 7 0 rfl i hi hcovers
  omega

end Renop.TTLCache
