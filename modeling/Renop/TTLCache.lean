import Renop.Interleave

/-!
# The caches of the database

`TTLCache` of `cache.go`: sharded, bounded, and with one load for all who miss a key at the same time. A value that was
loaded is stored only if no invalidation came between, which a generation counter tells. Every section under a lock is one
step, and so is every read of the counter or of the clock; a step that reads a remote value may fail.

`born`, `bumps` and `settled` are read by no call: they keep when a loading began, how many invalidations began, and which of
them have returned.
-/

namespace Renop.TTLCache

open Interleave

def numShards : Nat := 32

def defaultMaxCacheEntries : Int := 8192

/-- What `NewTTLCacheWithCapacity` and `UseRemote` fix. -/
structure Config (K V : Type) where
  maxEntriesPerShard : Nat
  capacity_pos : 0 < maxEntriesPerShard
  defaultTTL : Int
  /-- `maphash.Comparable` -/
  hash : K → Nat
  /-- Values are kept elsewhere, and here only what `project` leaves of them. -/
  external : Bool
  project : V → V

def newTTLCacheWithCapacity {K V : Type} (defaultTTL maxEntries : Int) (hash : K → Nat) : Config K V :=
  let maxEntries := if maxEntries ≤ 0 then defaultMaxCacheEntries else maxEntries
  { maxEntriesPerShard := max ((maxEntries.toNat + numShards - 1) / numShards) 1
    capacity_pos := Nat.lt_of_lt_of_le Nat.zero_lt_one (Nat.le_max_right ..)
    defaultTTL, hash
    external := false
    project := id }

section Config
variable {K V : Type} (cfg : Config K V)

def Config.shard (key : K) : Nat := cfg.hash key % numShards

/-- What the predicate of `DeleteFunc` sees of a value. -/
def Config.index (v : V) : V := if cfg.external then cfg.project v else v

end Config

structure Item (K V : Type) where
  key : K
  value : V
  index : V
  expiredAt : Int
  /-- The invalidations that had begun when the loading of the value began. -/
  born : Nat
deriving DecidableEq, Repr

/-- `cacheLoad`; there is a result as soon as `done` is closed. -/
structure Load (V E : Type) where
  generation : Nat
  born : Nat
  result : Option (Except E V)
deriving DecidableEq

/-- What a call of `Delete`, `Clear` or `DeleteFunc` is about. -/
structure Scope (K V : Type) where
  /-- The key of a `Delete`. -/
  key : Option K
  covers : K → V → Bool
  only_key : ∀ k ∈ key, ∀ k' v, covers k' v = true → k' = k

/-- Such a call, and its number. -/
structure Invalidation (K V : Type) extends Scope K V where
  time : Nat

structure Cache (K V E : Type) where
  items : Nat → List (Item K V)
  inFlight : List (K × Nat)
  loads : List (Load V E)
  generation : Nat
  /-- `time.Now().UnixMilli()` -/
  now : Int
  bumps : Nat
  settled : List (Invalidation K V)

def Cache.empty {K V E : Type} : Cache K V E := ⟨fun _ => [], [], [], 0, 0, 0, []⟩

/-- What a loader does. -/
inductive Outcome (V E : Type)
  | value (v : V) (ttl : Int)
  | error (e : E)
  /-- The panic goes on to the caller, and those who wait get an error. -/
  | panic (e : E)
deriving DecidableEq, Repr

inductive Answer (V E : Type)
  | value (v : V) (born : Nat)
  | miss
  | error (e : E)
  | panic
  | stored (b : Bool)
  | done
deriving DecidableEq, Repr

/-- What a call returns, with the invalidations that had returned when it began. -/
structure Reply (K V E : Type) where
  since : List (Invalidation K V)
  answer : Answer V E

/-- The steps that matter later. -/
inductive Step (K V : Type)
  | other
  /-- The section that may store a value; its loading began with invalidation `born`. -/
  | store (born : Nat)
  /-- The lock section of `GetOrLoad` that may join a load. -/
  | lookup (key : K) (since : List (Invalidation K V))
  /-- `<-pending.done` -/
  | wait (load : Nat)

section Sections
variable {K V E : Type} [DecidableEq K] (cfg : Config K V)

def Cache.find (w : Cache K V E) (key : K) : Option (Item K V) := (w.items (cfg.shard key)).find? fun it => it.key = key

def Cache.setShard (w : Cache K V E) (j : Nat) (l : List (Item K V)) :
    Cache K V E := { w with items := Function.update w.items j l }

/-- The entry that expires first. -/
def oldest (l : List (Item K V)) : Option (Item K V) :=
  l.foldl (fun best it => match best with
    | none => some it
    | some b => if it.expiredAt < b.expiredAt then some it else some b) none

/-- Room for one more entry. -/
def evict (now : Int) (l : List (Item K V)) : List (Item K V) :=
  if l.length < cfg.maxEntriesPerShard then l
  else
    let l := l.filter fun it => it.expiredAt ≥ now
    if l.length < cfg.maxEntriesPerShard then l
    else match oldest l with
      | none => l
      | some b => l.filter fun it => it.key ≠ b.key

def setLocked (key : K) (value : V) (ttl : Int) (born : Nat) (w : Cache K V E) : Cache K V E :=
  let l := w.items (cfg.shard key)
  let l := if l.any fun it => it.key = key then l else evict cfg w.now l
  let ttl := if ttl ≤ 0 then cfg.defaultTTL else ttl
  w.setShard (cfg.shard key) (l.filter (fun it => it.key ≠ key) ++ [⟨key, value, cfg.index value, w.now + ttl, born⟩])

/-- An entry that has expired is removed on the way. -/
def removeExpired (key : K) (now : Int) (w : Cache K V E) : Cache K V E :=
  w.setShard (cfg.shard key) ((w.items (cfg.shard key)).filter fun it => !(it.key = key && it.expiredAt < now))

def removeMatching (j : Nat) (covers : K → V → Bool) (w : Cache K V E) : Cache K V E :=
  w.setShard j ((w.items j).filter fun it => !covers it.key it.index)

/-- What the first lock section of `GetOrLoad` finds. -/
inductive Found (V : Type)
  | value (v : V) (born : Nat)
  | pending (load : Nat)
  | load (load born : Nat)

def lookup (key : K) (fail : Bool) (w : Cache K V E) : Found V × Cache K V E :=
  let miss (w : Cache K V E) : Found V × Cache K V E :=
    match w.inFlight.lookup key with
    | some n => (.pending n, w)
    | none =>
      (.load w.loads.length w.bumps,
        { w with inFlight := (key, w.loads.length) :: w.inFlight, loads := w.loads ++ [⟨w.generation, w.bumps, none⟩] })
  match w.find cfg key with
  | none => miss w
  | some it =>
    if w.now ≤ it.expiredAt then
      if cfg.external && fail then miss w else (.value it.value it.born, w)
    else miss (w.setShard (cfg.shard key) ((w.items (cfg.shard key)).filter fun it => it.key ≠ key))

def Outcome.result : Outcome V E → Except E V
  | .value v _ => .ok v
  | .error e | .panic e => .error e

/-- The second lock section of `GetOrLoad`. -/
def finish (key : K) (n born : Nat) (outcome : Outcome V E) (w : Cache K V E) : Cache K V E :=
  let stored : Cache K V E := match outcome with
    | .value v ttl => if (w.loads[n]?).any fun l => l.generation = w.generation then setLocked cfg key v ttl born w else w
    | .error _ | .panic _ => w
  { stored with
    loads := w.loads.modify n fun l => { l with result := some outcome.result }
    inFlight := w.inFlight.filter fun p => p.1 ≠ key }

end Sections

/-! ### The calls -/

section Calls
variable {K V E : Type} [DecidableEq K] (cfg : Config K V)

abbrev Call (K V E α : Type) : Type := Proc (Cache K V E) (Step K V) Empty α

/-- A step that only reads. -/
def read {α : Type} (f : Cache K V E → α) : Call K V E α := Proc.atomic .other fun _ w => (f w, w)

def update (f : Cache K V E → Cache K V E) : Call K V E Unit := Proc.atomic .other fun _ w => ((), f w)

/-- `Get`; the first step is where the call begins. -/
def get (key : K) : Call K V E (List (Invalidation K V) × Option (V × Nat)) := do
  let (generation, since) ← read fun w => (w.generation, w.settled)
  match ← read fun w => w.find cfg key with
  | none => pure (since, none)
  | some item =>
    let now ← read fun w => w.now
    if item.expiredAt < now then
      update (removeExpired cfg key now)
      pure (since, none)
    else
      let valid ← Proc.atomic .other fun fail w => (!(cfg.external && fail), w)
      let current ← read fun w => w.generation
      if valid && generation = current then pure (since, some (item.value, item.born)) else pure (since, none)

def getOrLoad (key : K) (outcome : Outcome V E) : Call K V E (Reply K V E) := do
  let (since, hit) ← get cfg key
  match hit with
  | some (v, born) => pure ⟨since, .value v born⟩
  | none =>
    match ← Proc.atomic (.lookup key since) fun fail w => lookup cfg key fail w with
    | .value v born => pure ⟨since, .value v born⟩
    | .pending n =>
      match ← Proc.atomic (.wait n) fun _ w => (w.loads[n]?, w) with
      | some ⟨_, born, some (.ok v)⟩ => pure ⟨since, .value v born⟩
      | some ⟨_, _, some (.error e)⟩ => pure ⟨since, .error e⟩
      | _ => pure ⟨since, .miss⟩
    | .load n born =>
      -- the loader runs without a lock
      read fun _ => ()
      Proc.atomic (.store born) fun _ w => ((), finish cfg key n born outcome w)
      match outcome with
      | .value v _ => pure ⟨since, .value v born⟩
      | .error e => pure ⟨since, .error e⟩
      | .panic _ => pure ⟨since, .panic⟩

/-- A load outside the cache: `Generation`, the load itself, and `SetIfGeneration`. -/
def setIfGeneration (key : K) (v : V) (ttl : Int) : Call K V E Bool := do
  let (generation, born) ← read fun w => (w.generation, w.bumps)
  read fun _ => ()
  Proc.atomic (.store born) fun _ w => if w.generation = generation then (true, setLocked cfg key v ttl born w) else
    (false, w)

/-- The counter first, then the shards one by one. -/
def invalidate (scope : Scope K V) (shards : List Nat) : Call K V E Unit := do
  let time ← Proc.atomic .other fun _ w => (w.bumps + 1, { w with generation := (w.generation + 1) % 2 ^ 64, bumps :=
    w.bumps + 1 })
  shards.foldr (fun j rest => do update (removeMatching j scope.covers); rest)
    (update fun w => { w with settled := ⟨scope, time⟩ :: w.settled })

def delete (key : K) : Call K V E Unit := invalidate ⟨some key, fun k _ => k = key, by simp⟩ [cfg.shard key]

def clear : Call K V E Unit := invalidate ⟨none, fun _ _ => true, by simp⟩ (List.range numShards)

def deleteFunc (predicate : K → V → Bool) : Call K V E Unit := invalidate ⟨none, predicate, by simp⟩
    (List.range numShards)

inductive Request (K V E : Type)
  | get (key : K)
  | getOrLoad (key : K) (outcome : Outcome V E)
  | setIfGeneration (key : K) (v : V) (ttl : Int)
  | delete (key : K)
  | clear
  | deleteFunc (predicate : K → V → Bool)
  /-- The clock is set. -/
  | clock (now : Int)

def call : Request K V E → Call K V E (Reply K V E)
  | .get key => do
    let (since, hit) ← get cfg key
    pure ⟨since, match hit with
      | some (v, born) => .value v born
      | none => .miss⟩
  | .getOrLoad key outcome => getOrLoad cfg key outcome
  | .setIfGeneration key v ttl => do
    let stored ← setIfGeneration cfg key v ttl
    pure ⟨[], .stored stored⟩
  | .delete key => do
    delete cfg key
    pure ⟨[], .done⟩
  | .clear => do
    clear
    pure ⟨[], .done⟩
  | .deleteFunc predicate => do
    deleteFunc predicate
    pure ⟨[], .done⟩
  | .clock now => do
    update fun w => { w with now }
    pure ⟨[], .done⟩

/-- Who waits for a load goes on when it is done. -/
def enabled (step : Step K V) (w : Cache K V E) : Bool :=
  match step with
  | .wait n => (w.loads[n]?).any fun l => l.result.isSome
  | .other | .store _ | .lookup .. => true

/-- A load that is joined began after every invalidation of its key that had returned when the call began, and the counter has
not come round since a load began. -/
def careful (step : Step K V) (w : Cache K V E) : Bool :=
  match step with
  | .other | .wait _ => true
  | .store born => w.bumps < born + 2 ^ 64
  | .lookup key since =>
    ((w.find cfg key).any fun it => w.now ≤ it.expiredAt && !cfg.external) ||
      match (w.inFlight.lookup key).bind fun n => w.loads[n]? with
      | none => true
      | some l => since.all fun i => (i.key.isSome && i.key ≠ some key) || i.time ≤ l.born

/-- The key whose value a call returns. -/
def Request.key : Request K V E → Option K
  | .get key | .getOrLoad key _ => some key
  | .setIfGeneration .. | .delete _ | .clear | .deleteFunc _ | .clock _ => none

end Calls

end Renop.TTLCache
