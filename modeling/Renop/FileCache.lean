import Renop.SqlTable
import Mathlib.Algebra.BigOperators.Fin

/-!
# The in-memory file cache

Sixteen shards, each a map with a list `order` of its keys in the order of their arrival. `order` keeps the keys
of deleted entries until an eviction or `compactOrderLocked` drops them. With a remote store the bytes of an entry
are there, and a call to it may fail; they are written here as the `data` of the entry all the same.

`none` is a call that does not return: its loop was given more rounds than it can need.
-/

namespace Renop.FileCache

open Sql

def fileCacheShardCount : Nat := 16

structure Entry where
  data : List UInt8
  size : Nat
deriving DecidableEq

/-- `map[string]fileCacheEntry`. -/
abbrev Entries := Table (Prod.fst : String × Entry → String)

namespace Entries

/-- The `delete` of Go. -/
def remove (t : Entries) (key : String) : Entries := t.delete fun e => e.1 = key

def assign (t : Entries) (key : String) (entry : Entry) : Entries :=
  ⟨(t.remove key).rows ++ [(key, entry)], Table.nodup_append (t.remove key).nodup (by simp [remove])⟩

def bytes (t : Entries) : Nat := (t.rows.map fun e => e.2.size).sum

end Entries

structure Shard where
  entries : Entries
  order : List String

/-- FNV-1a over the bytes of the key. -/
def hashKey (key : String) : UInt32 :=
  key.toUTF8.data.toList.foldl (fun h b => (h ^^^ b.toUInt32) * 16777619) 2166136261

def shardOf (key : String) : Fin fileCacheShardCount :=
  ⟨(hashKey key).toNat &&& (fileCacheShardCount - 1), Nat.lt_succ_of_le Nat.and_le_right⟩

structure FileByteCache where
  maxBytes : Nat
  used : Int
  shards : Fin fileCacheShardCount → Shard
  remote : Bool

def newFileByteCache (maxBytes : Int) (remote : Bool) : FileByteCache :=
  ⟨if maxBytes ≤ 0 then 16 * 2 ^ 20 else maxBytes.toNat, 0, fun _ => ⟨.empty, []⟩, remote⟩

namespace Shard

def compactOrderLocked (s : Shard) : Shard :=
  if s.entries.rows = [] then { s with order := [] }
  else if s.order.length ≤ 2 * s.entries.rows.length + 32 then s
  else { s with order := s.order.filter fun k => (s.entries.find? k).isSome }

/-- The loop of `evictOneLocked` over `order`: the entry it removed, if it came to one. -/
def popOrder (protect : String) : Nat → Shard → Option (Shard × Option Entry)
  | 0, _ => none
  | fuel + 1, s =>
    match s.order with
    | [] => some (s, none)
    | k :: order =>
      if k = protect then
        let s := { s with order := order ++ [k] }
        if s.entries.rows.length ≤ 1 then some (s, none) else popOrder protect fuel s
      else
        match s.entries.find? k with
        | some v => some (⟨s.entries.remove k, order⟩, some v.2)
        | none => popOrder protect fuel { s with order := order }

/-- Removes an entry other than that of `protect`. -/
def evictOneLocked (protect : String) (s : Shard) : Option (Shard × Option Entry) :=
  match s.popOrder protect (s.order.length + 1) with
  | none => none
  | some (s, some v) => some (s, some v)
  | some (s, none) =>
    -- `range` over a map that has no more than one such entry
    match s.entries.rows.find? fun e => e.1 ≠ protect with
    | some (k, v) => some ({ s with entries := s.entries.remove k }, some v)
    | none => some (s, none)

end Shard

namespace FileByteCache

def get (c : FileByteCache) (key : String) (readOk : Bool) : Option (List UInt8) :=
  match (c.shards (shardOf key)).entries.find? key with
  | none => none
  | some v => if c.remote ∧ ¬ readOk then none else some v.2.data

def setShard (c : FileByteCache) (i : Fin fileCacheShardCount) (s : Shard) (delta : Int) : FileByteCache :=
  { c with shards := Function.update c.shards i s, used := c.used + delta }

def delete (c : FileByteCache) (key : String) : FileByteCache :=
  let s := c.shards (shardOf key)
  match s.entries.find? key with
  | some old => c.setShard (shardOf key) (Shard.compactOrderLocked { s with entries := s.entries.remove key }) (-old.2.size)
  | none => c

/-- One pass of `trimToMax` over the shards; the flag is `progress`, and `false` also when it returned early. -/
def trimRound (protect : String) : List (Fin fileCacheShardCount) → Bool → FileByteCache →
    Option (FileByteCache × Bool)
  | [], progress, c => some (c, progress)
  | i :: shards, progress, c =>
    if c.used ≤ c.maxBytes then some (c, false)
    else
      match (c.shards i).evictOneLocked protect with
      | none => none
      | some (s, some v) => trimRound protect shards true (c.setShard i s.compactOrderLocked (-v.size))
      | some (s, none) => trimRound protect shards progress (c.setShard i s.compactOrderLocked 0)

def trimLoop (protect : String) : Nat → FileByteCache → Option FileByteCache
  | 0, _ => none
  | fuel + 1, c =>
    if c.used ≤ c.maxBytes then some c
    else
      match trimRound protect (List.finRange fileCacheShardCount) false c with
      | none => none
      | some (c, true) => trimLoop protect fuel c
      | some (c, false) => some c

def len (c : FileByteCache) : Nat := ∑ i, (c.shards i).entries.rows.length

def trimToMax (protect : String) (c : FileByteCache) : Option FileByteCache := trimLoop protect (c.len + 1) c

/-- `Set` while it holds the shard. -/
def write (c : FileByteCache) (key : String) (entry : Entry) : FileByteCache :=
  let s := c.shards (shardOf key)
  match s.entries.find? key with
  | some old => c.setShard (shardOf key) { s with entries := s.entries.assign key entry } (entry.size - old.2.size)
  | none => c.setShard (shardOf key) ⟨s.entries.assign key entry, s.order ++ [key]⟩ entry.size

/-- `putOk` is the verdict of the remote store. -/
def set (c : FileByteCache) (key : String) (value : List UInt8) (putOk : Bool) : Option FileByteCache :=
  if c.maxBytes < value.length then some c
  else if c.remote ∧ ¬ putOk then some (c.delete key)
  else
    let c := c.write key ⟨value, value.length⟩
    if c.used > c.maxBytes then c.trimToMax key else some c

inductive Op
  | set (key : String) (value : List UInt8) (putOk : Bool)
  | get (key : String) (readOk : Bool)
  | delete (key : String)
  | trim (protect : String)

def apply (c : FileByteCache) : Op → Option FileByteCache
  | .set key value putOk => c.set key value putOk
  | .get _ _ => some c
  | .delete key => some (c.delete key)
  | .trim protect => c.trimToMax protect

def run : FileByteCache → List Op → Option FileByteCache
  | c, [] => some c
  | c, op :: ops =>
    match c.apply op with
    | none => none
    | some c => run c ops

end FileByteCache

end Renop.FileCache
