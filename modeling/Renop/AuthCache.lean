import Renop.CallList
import Renop.GoMap
import Mathlib.Data.BitVec

/-!
# The cache of authentication results

The part of `cache.go` that stores authentication results and throws them away when a credential changes. Whoever
authenticates reads the generation first, validates outside any lock, and stores only if the generation is still the same; a
revocation changes the credentials and then invalidates. Each section under `AuthCacheWriteLock` is one step, and so is every
read of the generation and every change of the credentials.

`bumps`, `version`, `born`, `since` and `first` are read by no call: they count invalidations and changes of the credentials,
and say when an authentication began, and which credentials it read first.
-/

namespace Renop.AuthCache

open CallList GoMap

def maxAuthCacheEntries : Nat := 10000

structure User where
  username : String
  passwordHash : String := ""
  tokens : List String := []
  roles : List String := []
  readPermissions : List String := []
  writePermissions : List String := []
deriving DecidableEq, Repr

structure AuthCacheEntry where
  user : Option User
  credentialKind : String := ""
  authScheme : String := ""
  apiTokenID : String := ""
  scopes : List String := []
  targets : List (String × List String) := []
  expiredAt : Int
  invalid : Bool := false
deriving DecidableEq, Repr

/-- What `UseRemoteCache` keeps in this process. -/
def project (entry : AuthCacheEntry) : AuthCacheEntry :=
  { entry with user := entry.user.map fun u => { username := u.username }, scopes := [], targets := [] }

/-- A value of the map, of which the predicates see the index. -/
structure Value where
  index : AuthCacheEntry
  born : Nat
deriving DecidableEq, Repr

abbrev Cache := List (String × Value)

/-- `DeleteMatching`, with the map ranged over in this order; `limit` 0 stands for none. -/
def deleteMatching (predicate : String → AuthCacheEntry → Bool) (limit : Nat) :
    List (String × Value) → Cache → Nat → Cache × Nat
  | [], m, removed => (m, removed)
  | (key, v) :: rest, m, removed =>
    let (m, removed) := if predicate key v.index && contains key m then (drop key m, removed + 1) else (m, removed)
    if limit = 0 ∨ removed < limit then deleteMatching predicate limit rest m removed else (m, removed)

/-- An authentication under way. -/
structure Authenticator where
  key : String
  generation : BitVec 64
  since : Nat
  first : Option Nat
deriving DecidableEq, Repr

/-- The ways to invalidate. -/
inductive Invalidation
  /-- `DeleteAuthCache` -/
  | delete (key : String)
  /-- `ClearAuthCache` -/
  | clear
  /-- `InvalidateAccountAuthCache` -/
  | account (clearFailures : Bool) (usernames : List String)
  /-- `InvalidateAPITokenAuthCache` -/
  | apiToken (tokenID : String)
  /-- `DeleteExpiredAuthCache` -/
  | expired (now : Int)
deriving DecidableEq, Repr

/-- A change of the credentials, and the invalidation that follows it. -/
structure Revocation where
  kind : Invalidation
  version : Nat
  /-- The invalidations so far when this one has returned. -/
  returned : Option Nat
deriving DecidableEq, Repr

structure State where
  authCache : Cache
  authCacheEntries : BitVec 64
  authCacheGeneration : BitVec 64
  bumps : Nat
  version : Nat
  authenticators : List Authenticator
  revocations : List Revocation
deriving DecidableEq, Repr

def State.init : State := ⟨[], 0, 0, 0, 0, [], []⟩

section Calls
variable (external : Bool)

/-- What `StoreAuthCacheIfCurrent` throws away when the cache is full. -/
def evict (s : State) (now : Int) (order : List (String × Value)) : Cache × BitVec 64 :=
  let (m, count) := deleteMatching (fun _ e => e.expiredAt ≤ now) 1000 order s.authCache 0
  let (m, count) := if count = 0 then deleteMatching (fun _ _ => true) 2000 order m 0 else (m, count)
  (m, if 0 < count then s.authCacheEntries + ~~~(BitVec.ofNat 64 count - 1) else s.authCacheEntries)

/-- The section of `StoreAuthCacheIfCurrent`. -/
def storeAuthCacheIfCurrent (s : State) (key : String) (entry : AuthCacheEntry) (generation : BitVec 64) (born : Nat)
    (now : Int) (order : List (String × Value)) : State :=
  let value : Value := ⟨if external then project entry else entry, born⟩
  if generation ≠ s.authCacheGeneration then s
  else if contains key s.authCache then { s with authCache := assign key value s.authCache }
  else
    let (m, entries) := if maxAuthCacheEntries ≤ s.authCacheEntries.toNat then evict s now order else
      (s.authCache, s.authCacheEntries)
    { s with authCache := assign key value m, authCacheEntries := entries + 1 }

variable (toLower trimSpace : String → String)

/-- The entries that go. -/
def Invalidation.covers : Invalidation → String → AuthCacheEntry → Bool
  | .delete key, k, _ => k = key
  | .clear, _, _ => true
  | .account clearFailures usernames, _, e =>
    clearFailures && e.invalid ||
      match e.user with
      | none => false
      | some u => ((usernames.map fun name => toLower (trimSpace name)).filter (· ≠ "")).contains (toLower u.username)
  | .apiToken tokenID, _, e => tokenID ≠ "" && e.apiTokenID = tokenID
  | .expired now, _, e => e.expiredAt ≤ now

def deleteAuthCacheWhere (s : State) (predicate : String → AuthCacheEntry → Bool) (order : List (String × Value)) :
    State :=
  let (m, deleted) := deleteMatching predicate 0 order s.authCache 0
  { s with
    authCache := m
    authCacheEntries := if deleted ≠ 0 then s.authCacheEntries + ~~~(BitVec.ofNat 64 deleted - 1) else s.authCacheEntries }

/-- The generation is advanced under the lock. -/
def bump (s : State) : State := { s with authCacheGeneration := s.authCacheGeneration + 1, bumps := s.bumps + 1 }

def invalidate (s : State) (kind : Invalidation) (order : List (String × Value)) : State :=
  match kind with
  | .delete key =>
    let s := bump s
    if contains key s.authCache then
      { s with authCache := drop key s.authCache, authCacheEntries := s.authCacheEntries + ~~~0 }
    else s
  | .clear =>
    let s := bump s
    { s with authCache := (deleteMatching (fun _ _ => true) 0 order s.authCache 0).1, authCacheEntries := 0 }
  -- a call with no token id does nothing at all
  | .apiToken tokenID => if tokenID = "" then s else deleteAuthCacheWhere (bump s) (kind.covers toLower trimSpace) order
  | _ => deleteAuthCacheWhere (bump s) (kind.covers toLower trimSpace) order

inductive Act
  /-- `AuthCacheGeneration.Load()` -/
  | begin (key : String)
  /-- The credentials are read, perhaps not for the first time. -/
  | validate (i : Nat)
  | store (i : Nat) (entry : AuthCacheEntry) (now : Int) (order : List (String × Value))
  /-- The credentials change; the invalidation comes later. -/
  | change (kind : Invalidation)
  | revoke (i : Nat) (order : List (String × Value))
  /-- An invalidation for which no credential has changed. -/
  | invalidate (kind : Invalidation) (order : List (String × Value))
deriving DecidableEq, Repr

def Authenticator.read (version : Nat) (a : Authenticator) :
    Authenticator := { a with first := a.first.orElse fun _ => some version }

def Revocation.return (bumps : Nat) (r : Revocation) : Revocation := { r with returned := some bumps }

/-- The map is ranged over entry by entry, in any order. -/
def Act.Ranges (s : State) : Act → Prop
  | .store _ _ _ order | .revoke _ order | .invalidate _ order => order.Perm s.authCache
  | _ => True

def step (s : State) : Act → Option State
  | .begin key => some { s with authenticators := s.authenticators ++ [⟨key, s.authCacheGeneration, s.bumps, none⟩] }
  | .validate i => some { s with authenticators := s.authenticators.modify i (Authenticator.read s.version) }
  | .store i entry now order =>
    match s.authenticators[i]? with
    | some ⟨key, generation, _, some first⟩ => some (storeAuthCacheIfCurrent external s key entry generation first
        now order)
    | _ => none
  | .change kind => some { s with version := s.version + 1, revocations :=
      s.revocations ++ [⟨kind, s.version + 1, none⟩] }
  | .revoke i order =>
    match s.revocations[i]? with
    | some ⟨kind, _, none⟩ =>
      let s := invalidate toLower trimSpace s kind order
      some { s with revocations := s.revocations.modify i (Revocation.return s.bumps) }
    | _ => none
  | .invalidate kind order => some (invalidate toLower trimSpace s kind order)

/-- A run in which every step meets `ok`. -/
inductive Run (ok : State → Act → Prop) : State → Prop
  | init : Run ok .init
  | step {s s'} (a : Act) : Run ok s → ok s a → a.Ranges s → step external toLower trimSpace s a = some s' → Run ok s'

/-- The counter has not come round since the authentication began. -/
def Careful (s : State) : Act → Prop
  | .store i _ _ _ => ∀ a, s.authenticators[i]? = some a → s.bumps < a.since + 2 ^ 64
  | _ => True

end Calls

/-! ## What is deleted -/

section Deletes
variable {predicate : String → AuthCacheEntry → Bool} {limit : Nat}

theorem deleteMatching_cons (key : String) (v : Value) (rest : List (String × Value)) (m : Cache) (removed : Nat) :
    deleteMatching predicate limit ((key, v) :: rest) m removed =
      if predicate key v.index && contains key m then
        if limit = 0 ∨ removed + 1 < limit then deleteMatching predicate limit rest (drop key m) (removed + 1)
        else (drop key m, removed + 1)
      else if limit = 0 ∨ removed < limit then deleteMatching predicate limit rest m removed
      else (m, removed) := by
  rw [deleteMatching]
  split_ifs with hp <;> simp_all

theorem deleteMatching_sublist (order : List (String × Value)) (m : Cache) (removed : Nat) :
    (deleteMatching predicate limit order m removed).1.Sublist m := by
  induction order generalizing m removed with
  | nil => exact List.Sublist.refl _
  | cons c rest ih =>
    obtain ⟨key, v⟩ := c
    rw [deleteMatching_cons]
    split_ifs
    · exact (ih _ _).trans (drop_sublist key m)
    · exact drop_sublist key m
    · exact ih _ _
    · exact List.Sublist.refl _

theorem deleteMatching_length (order : List (String × Value)) {m : Cache} (hm : Keyed m) (removed : Nat) :
    (deleteMatching predicate limit order m removed).1.length + (deleteMatching predicate limit order m removed).2 =
      m.length + removed := by
  induction order generalizing m removed with
  | nil => rfl
  | cons c rest ih =>
    obtain ⟨key, v⟩ := c
    rw [deleteMatching_cons]
    split_ifs with hp
    · have hlen := hm.length_drop (Bool.and_eq_true_iff.1 hp).2
      have := ih (hm.drop key) (removed + 1)
      omega
    · have hlen := hm.length_drop (Bool.and_eq_true_iff.1 hp).2
      simp only
      omega
    · exact ih hm removed
    · rfl

theorem deleteMatching_gone {order : List (String × Value)} {m : Cache} (removed : Nat) {c : String × Value}
    (hc : c ∈ order) (hp : predicate c.1 c.2.index = true) : c ∉ (deleteMatching predicate 0 order m removed).1 := by
  induction order generalizing m removed with
  | nil => simp at hc
  | cons d rest ih =>
    obtain ⟨key, v⟩ := d
    rw [deleteMatching_cons]
    simp only [true_or, if_true]
    rcases List.mem_cons.1 hc with rfl | hc
    · intro hmem
      split_ifs at hmem with hd
      · have := (mem_drop.1 ((deleteMatching_sublist _ _ _).subset hmem)).2
        exact this rfl
      · have hin := (deleteMatching_sublist _ _ _).subset hmem
        have hcon := contains_iff.2 ⟨_, hin, rfl⟩
        simp only [Bool.and_eq_true, not_and] at hd
        exact hd hp hcon
    · split_ifs
      · exact ih _ hc
      · exact ih _ hc

theorem deleteMatching_pos (order : List (String × Value)) {m : Cache} (hall : ∀ key e, predicate key e = true)
    {c : String × Value} (hc : c ∈ order.head?) (hm : c ∈ m) : 0 < (deleteMatching predicate limit order m 0).2 := by
  have hmono : ∀ (l : List (String × Value)) (m : Cache) (n : Nat), n ≤ (deleteMatching predicate limit l m n).2 := by
    intro l
    induction l with
    | nil => exact fun _ _ => le_rfl
    | cons d rest ih =>
      intro m n
      obtain ⟨key, v⟩ := d
      rw [deleteMatching_cons]
      split_ifs
      · have := ih (drop key m) (n + 1)
        omega
      · simp
      · exact ih m n
      · exact le_rfl
  cases order with
  | nil => simp at hc
  | cons d rest =>
    obtain ⟨key, v⟩ := d
    obtain rfl : (key, v) = c := by simpa using hc
    have hcon : contains key m = true := contains_iff.2 ⟨_, hm, rfl⟩
    rw [deleteMatching_cons, hall, hcon, Bool.and_self, if_pos rfl]
    split_ifs
    · have := hmono rest (drop key m) (0 + 1)
      omega
    · simp

end Deletes

theorem add_not_pred (x c : BitVec 64) : x + ~~~(c - 1) = x - c := by
  rw [BitVec.not_eq_neg_add]
  bv_omega

theorem ofNat_sub_ofNat {n k l : Nat} (h : l + k = n) : BitVec.ofNat 64 n - BitVec.ofNat 64 k = BitVec.ofNat 64 l := by
  rw [← h, BitVec.ofNat_add]
  bv_omega

/-! ## Every invalidation -/

section Steps
variable {external : Bool} {toLower trimSpace : String → String} {s s' : State}

/-- What an invalidation leaves. -/
structure Invalidated (toLower trimSpace : String → String) (kind : Invalidation) (s s' : State) : Prop where
  sublist : s'.authCache.Sublist s.authCache
  gone : ∀ c ∈ s'.authCache, kind.covers toLower trimSpace c.1 c.2.index = false
  count : s'.authCacheEntries = BitVec.ofNat 64 s'.authCache.length
  generation : s'.authCacheGeneration = BitVec.ofNat 64 s'.bumps
  bumps : s'.bumps = s.bumps + 1 ∨ kind = .apiToken "" ∧ s'.bumps = s.bumps
  version : s'.version = s.version
  authenticators : s'.authenticators = s.authenticators
  revocations : s'.revocations = s.revocations

theorem deleteAuthCacheWhere_count (hk : Keyed s.authCache) (hc : s.authCacheEntries = BitVec.ofNat 64 s.authCache.length)
    (predicate : String → AuthCacheEntry → Bool) (order : List (String × Value)) :
    (deleteAuthCacheWhere s predicate order).authCacheEntries =
      BitVec.ofNat 64 (deleteAuthCacheWhere s predicate order).authCache.length := by
  have hlen := @deleteMatching_length predicate 0 order _ hk 0
  simp only [deleteAuthCacheWhere, hc]
  split_ifs with h0
  · rw [add_not_pred]
    exact ofNat_sub_ofNat (by omega)
  · rw [not_not] at h0
    rw [h0] at hlen
    rw [show s.authCache.length = _ from hlen.symm]
    rfl

theorem invalidated_where (hk : Keyed s.authCache) (hc : s.authCacheEntries = BitVec.ofNat 64 s.authCache.length)
    (hg : s.authCacheGeneration = BitVec.ofNat 64 s.bumps) (kind : Invalidation) {order : List (String × Value)}
    (ho : order.Perm s.authCache) :
    Invalidated toLower trimSpace kind s (deleteAuthCacheWhere (bump s) (kind.covers toLower trimSpace) order) where
  sublist := deleteMatching_sublist order s.authCache 0
  gone c hmem := by
    have hmem' : c ∈ (deleteMatching (kind.covers toLower trimSpace) 0 order s.authCache 0).1 := hmem
    have hin := ho.mem_iff.2 ((deleteMatching_sublist order s.authCache 0).subset hmem')
    by_contra hcov
    exact deleteMatching_gone 0 hin (by simpa using hcov) hmem'
  count := deleteAuthCacheWhere_count (s := bump s) hk hc _ order
  generation := by
    show s.authCacheGeneration + 1 = BitVec.ofNat 64 (s.bumps + 1)
    rw [hg, BitVec.ofNat_add]
    rfl
  bumps := .inl rfl
  version := rfl
  authenticators := rfl
  revocations := rfl

theorem invalidate_spec (hk : Keyed s.authCache) (hc : s.authCacheEntries = BitVec.ofNat 64 s.authCache.length)
    (hg : s.authCacheGeneration = BitVec.ofNat 64 s.bumps) (kind : Invalidation) {order : List (String × Value)}
    (ho : order.Perm s.authCache) : Invalidated toLower trimSpace kind s (invalidate toLower trimSpace s kind order) := by
  have hg' : s.authCacheGeneration + 1 = BitVec.ofNat 64 (s.bumps + 1) := by
    rw [hg, BitVec.ofNat_add]
    rfl
  cases kind with
  | delete key =>
    by_cases hcon : contains key s.authCache = true
    · have heq : invalidate toLower trimSpace s (.delete key) order =
          { bump s with authCache := drop key s.authCache, authCacheEntries := s.authCacheEntries + ~~~0 } := if_pos hcon
      rw [heq]
      refine ⟨drop_sublist key s.authCache, fun c hmem => ?_, ?_, hg', .inl rfl, rfl, rfl, rfl⟩
      · exact decide_eq_false (mem_drop.1 hmem).2
      · have hlen := hk.length_drop hcon
        show s.authCacheEntries + ~~~0 = _
        rw [hc, ← ofNat_sub_ofNat hlen, ← add_not_pred]
        rfl
    · have heq : invalidate toLower trimSpace s (.delete key) order = bump s := if_neg hcon
      rw [heq]
      refine ⟨List.Sublist.refl _, fun c hmem => ?_, hc, hg', .inl rfl, rfl, rfl, rfl⟩
      exact decide_eq_false fun hkey => hcon (contains_iff.2 ⟨c, hmem, hkey⟩)
  | clear =>
    have hnil : (deleteMatching (fun _ _ => true) 0 order s.authCache 0).1 = [] := by
      refine List.eq_nil_iff_forall_not_mem.2 fun c hmem => ?_
      have hin := ho.mem_iff.2 ((deleteMatching_sublist order s.authCache 0).subset hmem)
      exact deleteMatching_gone 0 hin rfl hmem
    refine ⟨deleteMatching_sublist order s.authCache 0, fun c hmem => ?_, ?_, hg', .inl rfl, rfl, rfl, rfl⟩
    · have hmem' : c ∈ (deleteMatching (fun _ _ => true) 0 order s.authCache 0).1 := hmem
      simp [hnil] at hmem'
    · show (0 : BitVec 64) = BitVec.ofNat 64 (deleteMatching (fun _ _ => true) 0 order s.authCache 0).1.length
      rw [hnil]
      rfl
  | account clearFailures usernames => exact invalidated_where hk hc hg _ ho
  | apiToken tokenID =>
    by_cases hid : tokenID = ""
    · subst hid
      exact ⟨List.Sublist.refl _, fun _ _ => rfl, hc, hg, .inr ⟨rfl, rfl⟩, rfl, rfl, rfl⟩
    · have heq : invalidate toLower trimSpace s (.apiToken tokenID) order =
          deleteAuthCacheWhere (bump s) ((Invalidation.apiToken tokenID).covers toLower trimSpace) order := if_neg hid
      rw [heq]
      exact invalidated_where hk hc hg _ ho
  | expired now => exact invalidated_where hk hc hg _ ho

/-! ## Every store -/

/-- What a store leaves: the new value, and some of the old. -/
structure Stored (s s' : State) (key : String) (born : Nat) : Prop where
  keyed : Keyed s'.authCache
  count : s'.authCacheEntries = BitVec.ofNat 64 s'.authCache.length
  bounded : s'.authCache.length ≤ maxAuthCacheEntries
  mem : ∀ c ∈ s'.authCache, c.2.born = born ∨ c ∈ s.authCache
  rest : s'.authCacheGeneration = s.authCacheGeneration ∧ s'.bumps = s.bumps ∧ s'.version = s.version ∧
    s'.authenticators = s.authenticators ∧ s'.revocations = s.revocations

theorem stored_new {m : Cache} {n : BitVec 64} {key : String} {value : Value} (hm : Keyed m) (hsub : m.Sublist s.authCache)
    (hn : n = BitVec.ofNat 64 m.length) (hroom : m.length < maxAuthCacheEntries) (hnew : contains key s.authCache = false) :
    Stored s { s with authCache := assign key value m, authCacheEntries := n + 1 } key value.born := by
  have hnot : contains key m = false := by
    by_contra hcon
    obtain ⟨c, hc, hkey⟩ := contains_iff.1 (by simpa using hcon)
    have := contains_iff.2 ⟨c, hsub.subset hc, hkey⟩
    simp [hnew] at this
  have hlen : (assign key value m).length = m.length + 1 := by rw [length_assign, drop_of_not_contains hnot]
  refine ⟨hm.assign key value, ?_, ?_, fun c hc => ?_, rfl, rfl, rfl, rfl, rfl⟩
  · show n + 1 = BitVec.ofNat 64 (assign key value m).length
    rw [hlen, hn, BitVec.ofNat_add]
    rfl
  · show (assign key value m).length ≤ maxAuthCacheEntries
    omega
  · rcases mem_assign.1 hc with rfl | ⟨hc, -⟩
    · exact .inl rfl
    · exact .inr (hsub.subset hc)

theorem stored_same (hk : Keyed s.authCache) (hc : s.authCacheEntries = BitVec.ofNat 64 s.authCache.length)
    (hb : s.authCache.length ≤ maxAuthCacheEntries) (key : String) (born : Nat) : Stored s s key born :=
  ⟨hk, hc, hb, fun _ h => .inr h, rfl, rfl, rfl, rfl, rfl⟩

theorem evict_spec (hk : Keyed s.authCache) (hc : s.authCacheEntries = BitVec.ofNat 64 s.authCache.length) (now : Int)
    {order : List (String × Value)} (ho : order.Perm s.authCache) (hne : s.authCache ≠ []) :
    (evict s now order).1.Sublist s.authCache ∧ (evict s now order).1.length < s.authCache.length ∧
      (evict s now order).2 = BitVec.ofNat 64 (evict s now order).1.length := by
  have hcount : ∀ d : Cache × Nat, d.1.length + d.2 = s.authCache.length + 0 →
      s.authCacheEntries + ~~~(BitVec.ofNat 64 d.2 - 1) = BitVec.ofNat 64 d.1.length := by
    intro d hd
    rw [add_not_pred, hc]
    exact ofNat_sub_ofNat (by omega)
  have hlen₁ := @deleteMatching_length (fun _ e => decide (e.expiredAt ≤ now)) 1000 order _ hk 0
  have hsub₁ := @deleteMatching_sublist (fun _ e => decide (e.expiredAt ≤ now)) 1000 order s.authCache 0
  simp only [evict]
  generalize deleteMatching (fun _ e => decide (e.expiredAt ≤ now)) 1000 order s.authCache 0 = d at hlen₁ hsub₁ ⊢
  by_cases h0 : d.2 = 0
  · -- none has expired: whatever is met first goes
    have hsame : d.1 = s.authCache := hsub₁.eq_of_length (by omega)
    have hlen₂ := @deleteMatching_length (fun _ _ => true) 2000 order _ hk 0
    have hsub₂ := @deleteMatching_sublist (fun _ _ => true) 2000 order s.authCache 0
    have hpos : 0 < (deleteMatching (fun _ _ => true) 2000 order s.authCache 0).2 := by
      have hone : order ≠ [] := fun hnil => hne (List.Perm.eq_nil (hnil ▸ ho).symm)
      obtain ⟨c, rest, rfl⟩ := List.exists_cons_of_ne_nil hone
      exact @deleteMatching_pos _ _ _ _ (fun _ _ => rfl) c (by simp) (ho.mem_iff.1 (by simp))
    rw [if_pos h0, hsame, if_pos hpos]
    exact ⟨hsub₂, by omega, hcount _ hlen₂⟩
  · rw [if_neg h0, if_pos (by simp only; omega)]
    exact ⟨hsub₁, by simp only; omega, hcount _ hlen₁⟩

theorem store_spec (hk : Keyed s.authCache) (hc : s.authCacheEntries = BitVec.ofNat 64 s.authCache.length)
    (hb : s.authCache.length ≤ maxAuthCacheEntries) (key : String) (entry : AuthCacheEntry) (generation : BitVec 64)
    (born : Nat) (now : Int) {order : List (String × Value)} (ho : order.Perm s.authCache) :
    Stored s (storeAuthCacheIfCurrent external s key entry generation born now order) key born := by
  have hnat : s.authCacheEntries.toNat = s.authCache.length := by
    rw [hc, BitVec.toNat_ofNat, Nat.mod_eq_of_lt]
    exact Nat.lt_of_le_of_lt hb (by decide)
  unfold storeAuthCacheIfCurrent
  extract_lets value
  by_cases hgen : generation ≠ s.authCacheGeneration
  · rw [if_pos hgen]
    exact stored_same hk hc hb key born
  rw [if_neg hgen]
  by_cases hcon : contains key s.authCache = true
  · have hlen := hk.length_drop hcon
    rw [if_pos hcon]
    refine ⟨hk.assign key value, ?_, ?_, fun c hmem => ?_, rfl, rfl, rfl, rfl, rfl⟩
    · show s.authCacheEntries = BitVec.ofNat 64 (assign key value s.authCache).length
      rw [length_assign, hlen, hc]
    · show (assign key value s.authCache).length ≤ maxAuthCacheEntries
      rw [length_assign]
      omega
    · rcases mem_assign.1 hmem with rfl | ⟨hmem, -⟩
      · exact .inl rfl
      · exact .inr hmem
  · rw [if_neg hcon]
    rw [Bool.not_eq_true] at hcon
    by_cases hfull : maxAuthCacheEntries ≤ s.authCacheEntries.toNat
    · have hne : s.authCache ≠ [] := by
        intro hnil
        rw [hnat, hnil] at hfull
        exact absurd hfull (by decide)
      have hspec := evict_spec hk hc now ho hne
      rw [if_pos hfull]
      generalize evict s now order = d at hspec ⊢
      obtain ⟨hsub, hlt, hcount⟩ := hspec
      exact stored_new (hk.sublist hsub) hsub hcount (by omega) hcon
    · rw [if_neg hfull]
      exact stored_new hk (List.Sublist.refl _) hc (by omega) hcon

end Steps

/-! ## Every run -/

section Runs
variable {external : Bool} {toLower trimSpace : String → String} {s s' : State}

structure Inv (toLower trimSpace : String → String) (s : State) : Prop where
  keyed : Keyed s.authCache
  count : s.authCacheEntries = BitVec.ofNat 64 s.authCache.length
  bounded : s.authCache.length ≤ maxAuthCacheEntries
  generation : s.authCacheGeneration = BitVec.ofNat 64 s.bumps
  authenticators : ∀ a ∈ s.authenticators, a.generation = BitVec.ofNat 64 a.since ∧ a.since ≤ s.bumps
  /-- What began after a revocation has returned has read what the revocation changed. -/
  began : ∀ a ∈ s.authenticators, ∀ v, a.first = some v → ∀ r ∈ s.revocations, ∀ t, r.returned = some t →
    t ≤ a.since → r.kind = .apiToken "" ∨ r.version ≤ v
  revocations : ∀ r ∈ s.revocations, r.version ≤ s.version ∧ ∀ t, r.returned = some t → t ≤ s.bumps
  clean : ∀ r ∈ s.revocations, r.returned ≠ none → ∀ c ∈ s.authCache,
    r.kind.covers toLower trimSpace c.1 c.2.index = true → r.version ≤ c.2.born

theorem Inv.invalidated (hi : Inv toLower trimSpace s) {kind : Invalidation} (h : Invalidated toLower trimSpace kind s s') :
    Inv toLower trimSpace s' where
  keyed := hi.keyed.sublist h.sublist
  count := h.count
  bounded := le_trans h.sublist.length_le hi.bounded
  generation := h.generation
  authenticators a ha := by
    rw [h.authenticators] at ha
    have := hi.authenticators a ha
    rcases h.bumps with hb | ⟨-, hb⟩ <;> exact ⟨this.1, by omega⟩
  began a ha v hv r hr := by
    rw [h.authenticators] at ha
    rw [h.revocations] at hr
    exact hi.began a ha v hv r hr
  revocations r hr := by
    rw [h.revocations] at hr
    rw [h.version]
    refine ⟨(hi.revocations r hr).1, fun t ht => ?_⟩
    have := (hi.revocations r hr).2 t ht
    rcases h.bumps with hb | ⟨-, hb⟩ <;> omega
  clean r hr hret c hc := by
    rw [h.revocations] at hr
    exact hi.clean r hr hret c (h.sublist.subset hc)

/-- The invalidation of a revocation returns. -/
theorem Inv.revoked (hi : Inv toLower trimSpace s) {i : Nat} {r : Revocation} (hr : s.revocations[i]? = some r)
    (h : Invalidated toLower trimSpace r.kind s s') :
    Inv toLower trimSpace { s' with revocations := s'.revocations.modify i (Revocation.return s'.bumps) } := by
  have hi' := hi.invalidated h
  have hcases : ∀ q ∈ s'.revocations.modify i (Revocation.return s'.bumps), q ∈ s'.revocations ∨
      q = r.return s'.bumps := by
    intro q hq
    rcases mem_modify hq with hq | ⟨b, hb, rfl⟩
    · exact .inl hq
    · rw [h.revocations, hr] at hb
      exact .inr (by rw [Option.some.inj hb])
  refine ⟨hi'.keyed, hi'.count, hi'.bounded, hi'.generation, hi'.authenticators, ?_, ?_, ?_⟩
  · intro a ha v hv q hq t ht hle
    rcases hcases q hq with hq | rfl
    · exact hi'.began a ha v hv q hq t ht hle
    · -- nobody has begun since
      obtain rfl := Option.some.inj ht
      rw [h.authenticators] at ha
      have := (hi.authenticators a ha).2
      rcases h.bumps with hb | ⟨hkind, -⟩
      · omega
      · exact .inl hkind
  · intro q hq
    rcases hcases q hq with hq | rfl
    · exact hi'.revocations q hq
    · refine ⟨?_, fun t ht => ?_⟩
      · show r.version ≤ s'.version
        rw [h.version]
        exact (hi.revocations r (List.mem_of_getElem? hr)).1
      · obtain rfl := Option.some.inj ht
        exact le_rfl
  · intro q hq hret c hc hcov
    rcases hcases q hq with hq | rfl
    · exact hi'.clean q hq hret c hc hcov
    · have := h.gone c hc
      rw [show (r.return s'.bumps).kind = r.kind from rfl, this] at hcov
      exact absurd hcov Bool.false_ne_true

theorem Inv.stored (hi : Inv toLower trimSpace s) {i : Nat} {a : Authenticator} {first : Nat}
    (ha : s.authenticators[i]? = some a)
    (hfirst : a.first = some first) (hround : s.bumps < a.since + 2 ^ 64) {entry : AuthCacheEntry} {now : Int}
    {order : List (String × Value)} (ho : order.Perm s.authCache) :
    Inv toLower trimSpace (storeAuthCacheIfCurrent external s a.key entry a.generation first now order) := by
  by_cases hgen : a.generation = s.authCacheGeneration
  · have hst := @store_spec external _ hi.keyed hi.count hi.bounded a.key entry a.generation first now _ ho
    obtain ⟨hg, hb, hv, hauth, hrev⟩ := hst.rest
    have hmem := List.mem_of_getElem? ha
    have hsince : a.since = s.bumps := by
      obtain ⟨h₁, h₂⟩ := hi.authenticators a hmem
      rw [h₁, hi.generation] at hgen
      have := congrArg BitVec.toNat hgen
      simp only [BitVec.toNat_ofNat] at this
      omega
    refine ⟨hst.keyed, hst.count, hst.bounded, ?_, ?_, ?_, ?_, ?_⟩
    · rw [hg, hb]
      exact hi.generation
    · rw [hauth, hb]
      exact hi.authenticators
    · rw [hauth, hrev]
      exact hi.began
    · rw [hrev, hv, hb]
      exact hi.revocations
    · rw [hrev]
      intro r hr hret c hc hcov
      rcases hst.mem c hc with hborn | hc
      · -- the generation has not moved: the authentication began after the revocation had returned
        obtain ⟨t, ht⟩ := Option.ne_none_iff_exists'.1 hret
        have hle : t ≤ a.since := by
          rw [hsince]
          exact (hi.revocations r hr).2 t ht
        rw [hborn]
        rcases hi.began a hmem first hfirst r hr t ht hle with hkind | hle
        · rw [hkind] at hcov
          simp [Invalidation.covers] at hcov
        · exact hle
      · exact hi.clean r hr hret c hc hcov
  · have hsame : storeAuthCacheIfCurrent external s a.key entry a.generation first now order = s := if_pos hgen
    rw [hsame]
    exact hi

theorem Inv.step (hi : Inv toLower trimSpace s) {a : Act} (hcare : Careful s a) (hran : a.Ranges s)
    (h : step external toLower trimSpace s a = some s') : Inv toLower trimSpace s' := by
  cases a with
  | begin key =>
    obtain rfl := Option.some.inj h
    refine ⟨hi.keyed, hi.count, hi.bounded, hi.generation, fun a ha => ?_, fun a ha v hv => ?_, hi.revocations, hi.clean⟩
    · rcases List.mem_append.1 ha with ha | ha
      · exact hi.authenticators a ha
      · obtain rfl := List.mem_singleton.1 ha
        exact ⟨hi.generation, le_rfl⟩
    · rcases List.mem_append.1 ha with ha | ha
      · exact hi.began a ha v hv
      · obtain rfl := List.mem_singleton.1 ha
        simp at hv
  | validate i =>
    obtain rfl := Option.some.inj h
    refine ⟨hi.keyed, hi.count, hi.bounded, hi.generation, fun a ha => ?_, fun a ha v hv r hr t ht hle => ?_,
      hi.revocations, hi.clean⟩
    · rcases mem_modify ha with ha | ⟨b, hb, rfl⟩
      · exact hi.authenticators a ha
      · exact hi.authenticators b (List.mem_of_getElem? hb)
    · rcases mem_modify ha with ha | ⟨b, hb, rfl⟩
      · exact hi.began a ha v hv r hr t ht hle
      · cases hfirst : b.first with
        | none =>
          simp only [Authenticator.read, hfirst, Option.orElse_none, Option.some.injEq] at hv
          rw [← hv]
          exact .inr (hi.revocations r hr).1
        | some w =>
          simp only [Authenticator.read, hfirst, Option.orElse_some, Option.some.injEq] at hv
          rw [← hv]
          exact hi.began b (List.mem_of_getElem? hb) w hfirst r hr t ht hle
  | store i entry now order =>
    simp only [AuthCache.step] at h
    split at h
    · rename_i key generation since first ha
      obtain rfl := Option.some.inj h
      exact hi.stored ha rfl (hcare _ ha) hran
    · simp at h
  | change kind =>
    obtain rfl := Option.some.inj h
    have hnew : ∀ r ∈ s.revocations ++ [⟨kind, s.version + 1, none⟩], r ∈ s.revocations ∨ r.returned = none ∧
        r.version = s.version + 1 := by
      intro r hr
      rcases List.mem_append.1 hr with hr | hr
      · exact .inl hr
      · obtain rfl := List.mem_singleton.1 hr
        exact .inr ⟨rfl, rfl⟩
    refine ⟨hi.keyed, hi.count, hi.bounded, hi.generation, hi.authenticators, fun a ha v hv r hr t ht hle => ?_,
      fun r hr => ?_, fun r hr hret c hc hcov => ?_⟩
    · rcases hnew r hr with hr | ⟨hret, -⟩
      · exact hi.began a ha v hv r hr t ht hle
      · simp [hret] at ht
    · rcases hnew r hr with hr | ⟨hret, hver⟩
      · exact ⟨Nat.le_succ_of_le (hi.revocations r hr).1, (hi.revocations r hr).2⟩
      · exact ⟨by rw [hver], by simp [hret]⟩
    · rcases hnew r hr with hr | ⟨hret', -⟩
      · exact hi.clean r hr hret c hc hcov
      · exact absurd hret' hret
  | revoke i order =>
    simp only [AuthCache.step] at h
    split at h
    · rename_i kind version hr
      obtain rfl := Option.some.inj h
      exact hi.revoked hr (invalidate_spec hi.keyed hi.count hi.generation kind hran)
    · simp at h
  | invalidate kind order =>
    obtain rfl := Option.some.inj h
    exact hi.invalidated (invalidate_spec hi.keyed hi.count hi.generation kind hran)

theorem Run.inv (hr : Run external toLower trimSpace Careful s) : Inv toLower trimSpace s := by
  induction hr with
  | init => exact ⟨.nil, rfl, by simp [State.init], rfl, by simp [State.init], by simp [State.init], by simp [State.init],
      by simp [State.init]⟩
  | step a _ hcare hran h ih => exact ih.step hcare hran h

end Runs

/-- The entries that a revocation is about: those under the key, all, or those of the accounts. -/
def Invalidation.Concerns (toLower trimSpace : String → String) (kind : Invalidation) (key : String) (e : AuthCacheEntry) :
    Prop :=
  kind = .delete key ∨ kind = .clear ∨ ∃ clearFailures usernames name u, kind = .account clearFailures usernames ∧
    name ∈ usernames ∧ e.user = some u ∧ toLower u.username = toLower (trimSpace name) ∧ toLower u.username ≠ ""

theorem Invalidation.Concerns.covers {toLower trimSpace : String → String} {kind : Invalidation} {key : String}
    {e : AuthCacheEntry} (h : kind.Concerns toLower trimSpace key e) : kind.covers toLower trimSpace key e = true := by
  rcases h with rfl | rfl | ⟨clearFailures, usernames, name, u, rfl, hname, huser, hlower, hne⟩
  · simp [Invalidation.covers]
  · rfl
  · simp only [Invalidation.covers, huser, Bool.or_eq_true, List.contains_iff_mem, List.mem_filter, List.mem_map]
    exact .inr ⟨⟨name, hname, hlower.symm⟩, by simpa using hne⟩

/-- What a revocation that has returned is about was validated after the change; and the count is right. -/
theorem no_stale_authentication {external : Bool} {toLower trimSpace : String → String} {s : State}
    (hr : Run external toLower trimSpace Careful s) :
    (∀ r ∈ s.revocations, r.returned ≠ none → ∀ c ∈ s.authCache,
      r.kind.Concerns toLower trimSpace c.1 c.2.index → r.version ≤ c.2.born) ∧
      s.authCacheEntries.toNat = s.authCache.length ∧ s.authCache.length ≤ maxAuthCacheEntries := by
  have hi := hr.inv
  refine ⟨fun r hrev hret c hc hcon => hi.clean r hrev hret c hc hcon.covers, ?_, hi.bounded⟩
  rw [hi.count, BitVec.toNat_ofNat, Nat.mod_eq_of_lt]
  exact Nat.lt_of_le_of_lt hi.bounded (by decide)

def alice : AuthCacheEntry := { user := some { username := "alice" }, expiredAt := 100 }

/-- Two authentications, one under way while the account is revoked and one that begins later; both store in the end. -/
theorem no_stale_authentication_late :
    let s : State := ⟨[("a", ⟨alice, 1⟩)], 1, 1, 1, 1, [⟨"a", 0, 0, some 0⟩, ⟨"a", 1, 1, some 1⟩],
      [⟨.account true ["alice"], 1, some 1⟩]⟩
    (∀ r ∈ s.revocations, r.returned ≠ none → ∀ c ∈ s.authCache, r.kind.Concerns id id c.1 c.2.index →
      r.version ≤ c.2.born) ∧ s.authCacheEntries.toNat = s.authCache.length ∧ s.authCache.length ≤ maxAuthCacheEntries := by
  intro s
  have h₁ := (@Run.init false id id Careful).step (.begin "a") trivial trivial rfl
  have h₂ := (h₁.step (.validate 0) trivial trivial rfl).step (.change (.account true ["alice"])) trivial trivial rfl
  have h₃ := (h₂.step (.revoke 0 []) trivial (.refl _) rfl).step (.begin "a") trivial trivial rfl
  have h₄ := h₃.step (.validate 1) trivial trivial rfl
  have hround : ∀ (t : State) (i : Nat), (∀ a, t.authenticators[i]? = some a → t.bumps < a.since + 2 ^ 64) →
      Careful t (.store i alice 0 []) := fun _ _ h => h
  have h₅ := h₄.step (.store 0 alice 0 []) (hround _ _ fun a ha => Nat.lt_add_left _ (by decide)) (.refl _) rfl
  have h₆ : Run false id id Careful s :=
    h₅.step (.store 1 alice 0 []) (hround _ _ fun a ha => Nat.lt_add_left _ (by decide)) (.refl _) rfl
  exact no_stale_authentication h₆

theorem run_clear {s : State} (hr : Run false id id (fun _ _ => True) s) (hcache : s.authCache = [])
    (hcount : s.authCacheEntries = 0) (n : Nat) : Run false id id (fun _ _ => True)
      { s with authCacheGeneration := s.authCacheGeneration + BitVec.ofNat 64 n, bumps := s.bumps + n } := by
  induction n with
  | zero => simpa using hr
  | succ n ih =>
    refine ih.step (.invalidate .clear []) trivial ?_ ?_
    · show List.Perm [] s.authCache
      rw [hcache]
    · simp only [step, invalidate, bump, deleteMatching, hcache, ← hcount, Option.some.injEq, State.mk.injEq, true_and,
        and_true]
      refine ⟨?_, by omega⟩
      rw [BitVec.ofNat_add, BitVec.add_assoc]
      rfl

/-- `DeleteAuthCache` leaves what the account has under another key; and after 2^64 invalidations a generation is current
again. -/
theorem stale_authentication :
    (∃ s, Run false id id (fun _ _ => True) s ∧ ∃ r ∈ s.revocations, r.returned ≠ none ∧ r.kind = .delete "a" ∧
      ("b", ⟨alice, 0⟩) ∈ s.authCache ∧ 0 < r.version) ∧
    ∃ s, Run false id id (fun _ _ => True) s ∧ ∃ r ∈ s.revocations, r.returned ≠ none ∧
      r.kind = .account true ["alice"] ∧ ("a", ⟨alice, 0⟩) ∈ s.authCache ∧ 0 < r.version := by
  constructor
  · have h₁ := (@Run.init false id id (fun _ _ => True)).step (.begin "a") trivial trivial rfl
    have h₂ := (h₁.step (.begin "b") trivial trivial rfl).step (.validate 0) trivial trivial rfl
    have h₃ := (h₂.step (.validate 1) trivial trivial rfl).step (.store 0 alice 0 []) trivial (.refl _) rfl
    have h₄ := h₃.step (.store 1 alice 0 [("a", ⟨alice, 0⟩)]) trivial (.refl _) rfl
    have h₅ := h₄.step (.change (.delete "a")) trivial trivial rfl
    have h₆ := h₅.step (.revoke 0 [("b", ⟨alice, 0⟩), ("a", ⟨alice, 0⟩)]) trivial (.refl _) rfl
    exact ⟨_, h₆, ⟨.delete "a", 1, some 1⟩, List.mem_cons_self, by simp, rfl, List.mem_cons_self, by decide⟩
  · have h₁ := (@Run.init false id id (fun _ _ => True)).step (.begin "a") trivial trivial rfl
    have h₂ := (h₁.step (.validate 0) trivial trivial rfl).step (.change (.account true ["alice"])) trivial trivial rfl
    let s : State := ⟨[], 0, 1, 1, 1, [⟨"a", 0, 0, some 0⟩], [⟨.account true ["alice"], 1, some 1⟩]⟩
    have h₃ : Run false id id (fun _ _ => True) s := h₂.step (.revoke 0 []) trivial (.refl _) rfl
    have hround : (1 : BitVec 64) + BitVec.ofNat 64 (2 ^ 64 - 1) = 0 := by decide
    have h₄ := run_clear h₃ rfl rfl (2 ^ 64 - 1)
    simp only [s, hround] at h₄
    have h₅ := h₄.step (.store 0 alice 0 []) trivial (.refl _) rfl
    exact ⟨_, h₅, ⟨.account true ["alice"], 1, some 1⟩,
      List.mem_cons_self, by simp, rfl, List.mem_cons_self, by decide⟩

end Renop.AuthCache
