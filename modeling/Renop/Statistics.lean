import Mathlib.Data.List.Perm.Basic
import Mathlib.Data.UInt
import Renop.SqlTable
import Renop.Cargo

/-!
# Download statistics

`counter` collects the downloads of a key in memory and hands them to the database in batches. Its map is
guarded by `mu`; `flushMu` keeps a flush and a reset of a repository apart. A call is a `Call` that says where
it stands, and one step takes it to its next lock or store call, so that a run is a list of calls and steps.

Counts are `Int64` as in the source, so `+` wraps. Beside the counter a `Shared` keeps what happened to every
count: `recorded` by `Record`, `discarded` at the key limit, `removed` by a reset, and `stored`, the
increments that the database holds.
-/

namespace Renop.Statistics

open Sql

structure DownloadKey where
  username : String
  repository : String
  format : String
  «namespace» : String
  packageName : String
  version : String
deriving DecidableEq, Repr

structure DownloadValue where
  count : Int64
  bytes : Int64
  updatedAt : Int64
deriving DecidableEq

abbrev Entry := DownloadKey × DownloadValue

/-- `map[downloadKey]downloadValue`. -/
abbrev Pending := Table (Prod.fst : Entry → DownloadKey)

/-! ### Events -/

/-- `config.Repository`, as far as a download reads it. -/
structure Repository where
  name : String
  format : String

structure DownloadStatisticDelta where
  username : String
  repository : String
  format : String
  «namespace» : String
  package : String
  version : String
  count : Int64
  bytes : Int64
  updatedAt : Int64

def formats : List String := ["", "maven", "maven-classic", "files", "cargo", "docker", "npm"]

section Normalize
variable (text : Cargo.Text)

def isSupportedRepositoryFormat (format : String) : Bool := text.toLower (text.trimSpace format) ∈ formats

/-- `NormalizedFormat` -/
def Repository.normalizedFormat (r : Repository) : String :=
  let format := text.toLower (text.trimSpace r.format)
  if format = "" ∨ format = "maven-classic" then "maven" else format

/-- What `RecordRepositoryDownload` sends, once the path was classified as a version of a package;
`classifyRepositoryDownload` knows paths of these formats only. -/
def repositoryDownload (repo : Repository) (username «namespace» package version : String) (bytes : Int64) :
    Option DownloadStatisticDelta :=
  let format := repo.normalizedFormat text
  if format ∈ ["maven", "cargo", "files", "npm"] then
    some ⟨username, repo.name, format, «namespace», package, version, 0, bytes, 0⟩
  else none

/-- What `RecordDockerPull` sends. -/
def dockerPull (repo : Repository) (username imageName reference : String) (size : Int64) : DownloadStatisticDelta :=
  ⟨username, repo.name, "docker", "", imageName, reference, 0, max size 0, 0⟩

def boundedStatisticValue (value : String) (limit : Nat) : String :=
  let value := text.trimSpace value
  if value.utf8ByteSize ≤ limit then value
  else text.trimSpace (String.ofList (Cargo.truncateUTF8 value.toList limit))

/-- `none` is an event that is not counted; `now` is the clock. -/
def normalizeDownloadEvent (event : DownloadStatisticDelta) (now : Int64) : Option Entry :=
  let repository := text.toLower (boundedStatisticValue text event.repository 64)
  let format := text.toLower (boundedStatisticValue text event.format 32)
  if repository = "" ∨ ¬ isSupportedRepositoryFormat text format then none
  else
    let format := if format = "maven-classic" then "maven" else format
    let count := if event.count ≤ 0 then 1 else event.count
    let updatedAt := if event.updatedAt ≤ 0 then now else event.updatedAt
    some ({ username := text.toLower (boundedStatisticValue text event.username 255)
            repository := repository
            format := format
            «namespace» := text.toLower (boundedStatisticValue text event.namespace 253)
            packageName := boundedStatisticValue text event.package 512
            version := boundedStatisticValue text event.version 255 },
          { count := count, bytes := max event.bytes 0, updatedAt := updatedAt })

end Normalize

/-! ### The counter -/

structure Counter where
  mu : Bool
  flushMu : Bool
  pending : Pending
  maxPendingKeys : Nat
  dropped : UInt64

def newCounter (maxPendingKeys : Nat) : Counter := ⟨false, false, .empty, maxPendingKeys, 0⟩

namespace DownloadValue

def add (current value : DownloadValue) : DownloadValue :=
  ⟨current.count + value.count, current.bytes + value.bytes, max current.updatedAt value.updatedAt⟩

end DownloadValue

namespace Pending

/-- `current := pending[key]`, the zero value for a key that is missing. -/
def get (pending : Pending) (key : DownloadKey) : DownloadValue :=
  match pending.find? key with
  | some e => e.2
  | none => ⟨0, 0, 0⟩

/-- Adds `e` to the value of its key. -/
def put (pending : Pending) (e : Entry) : Pending :=
  if h : ∀ b ∈ pending.rows, b.1 ≠ e.1 then
    ⟨pending.rows ++ [(e.1, (pending.get e.1).add e.2)], Table.nodup_append pending.nodup h⟩
  else
    pending.update (fun b => if b.1 = e.1 then (b.1, b.2.add e.2) else b) fun b => by split <;> rfl

/-- A key that is not there needs a free place. -/
def full (pending : Pending) (maxPendingKeys : Nat) (key : DownloadKey) : Prop :=
  pending.find? key = none ∧ maxPendingKeys ≤ pending.rows.length

instance (pending : Pending) (maxPendingKeys : Nat) (key : DownloadKey) :
    Decidable (pending.full maxPendingKeys key) :=
  inferInstanceAs (Decidable (_ ∧ _))

/-- The loop of `requeue`: the map after it, and the entries that found no place. -/
def requeue (maxPendingKeys : Nat) (pending : Pending) : List Entry → Pending × List Entry
  | [] => (pending, [])
  | e :: batch =>
    if pending.full maxPendingKeys e.1 then
      let r := requeue maxPendingKeys pending batch
      (r.1, e :: r.2)
    else requeue maxPendingKeys (pending.put e) batch

/-- What a reset takes out: the entries of one repository. -/
def ofRepository (pending : Pending) (repository : String) : Pending :=
  pending.delete fun e => e.1.repository ≠ repository

def clear (pending : Pending) (repository : String) : Pending :=
  pending.delete fun e => e.1.repository = repository

end Pending

/-- `uint64(value.count)` summed up. -/
def droppedCount (entries : List Entry) : UInt64 := (entries.map fun e => e.2.count.toUInt64).sum

/-! ### The database -/

/-- `BatchIncrementDownloadStatistics` goes on past the other events. -/
def counted (e : Entry) : Bool := 0 < e.2.count && e.1.repository ≠ "" && e.1.format ≠ ""

/-! ### Calls -/

/-- Where a call stands: what it does next. -/
inductive Call
  /-- `Record`, before `mu`. -/
  | record (e : Entry)
  /-- `dropped.Add` of `Record`, or of `requeue` when `flushing`. -/
  | drop (entries : List Entry) (flushing : Bool)
  /-- `Flush`, before `flushMu`. -/
  | flush
  | detach
  | store (batch : Pending)
  | requeue (batch : Pending)
  | report
  /-- `ResetRepository`, before `flushMu`. -/
  | reset (repository : String)
  | remove (repository : String)
  /-- Under `mu`, before `ResetDownloadStatistics`. -/
  | clear (repository : String) (removed : Pending)
  | done

namespace Call

/-- The counts that are in the hands of a call. -/
def held : Call → List Entry
  | drop entries _ => entries
  | store batch => batch.rows
  | requeue batch => batch.rows
  | clear _ removed => removed.rows
  | _ => []

end Call

structure Shared where
  counter : Counter
  stored : List Entry
  recorded : List Entry
  discarded : List Entry
  removed : List Entry

def Shared.setPending (s : Shared) (pending : Pending) : Shared :=
  { s with counter := { s.counter with pending := pending } }

def Shared.setFlushMu (s : Shared) (b : Bool) : Shared := { s with counter := { s.counter with flushMu := b } }

def Shared.setMu (s : Shared) (b : Bool) : Shared := { s with counter := { s.counter with mu := b } }

/-- What a step does not decide itself: whether its store call succeeds, and in which order it ranges over a map. -/
structure Choice where
  ok : Bool
  order : List Entry

section Step
variable (text : Cargo.Text)

/-- The next step of a call; `none` while it waits for a lock. -/
def Call.next (s : Shared) (c : Choice) : Call → Option (Shared × Call)
  | record e =>
    if s.counter.mu then none
    else
      let s := { s with recorded := s.recorded ++ [e] }
      if s.counter.pending.full s.counter.maxPendingKeys e.1 then some (s, drop [e] false)
      else some (s.setPending (s.counter.pending.put e), done)
  | drop entries flushing =>
    some ({ s with
              counter := { s.counter with dropped := s.counter.dropped + droppedCount entries }
              discarded := s.discarded ++ entries },
          if flushing then report else done)
  | flush => if s.counter.flushMu then none else some (s.setFlushMu true, detach)
  | detach =>
    if s.counter.mu then none
    else
      let batch := s.counter.pending
      some (s.setPending .empty, if batch.rows = [] then report else store batch)
  | store batch =>
    if c.ok then some ({ s with stored := s.stored ++ batch.rows.filter counted }, report)
    else some (s, requeue batch)
  | requeue batch =>
    if s.counter.mu then none
    else if c.order.Perm batch.rows then
      let r := s.counter.pending.requeue s.counter.maxPendingKeys c.order
      -- a sum of 0 is not added, which is the same for the counter
      if 0 < droppedCount r.2 then some (s.setPending r.1, drop r.2 true)
      else some ({ s.setPending r.1 with discarded := s.discarded ++ r.2 }, report)
    else none
  | report => some ({ s with counter := { s.counter with dropped := 0, flushMu := false } }, done)
  | reset repository =>
    if s.counter.flushMu then none
    -- `counter.database()` may be nil
    else if c.ok then some (s.setFlushMu true, remove repository)
    else some (s, done)
  | remove repository =>
    if s.counter.mu then none
    else
      some ((s.setMu true).setPending (s.counter.pending.clear repository),
        clear repository (s.counter.pending.ofRepository repository))
  | clear repository removed =>
    -- the database normalizes the name once more
    let name := text.toLower (text.trimSpace repository)
    if c.ok ∧ name ≠ "" then
      some (({ s with
                stored := s.stored.filter fun e : Entry => e.1.repository ≠ name
                removed := s.removed ++ s.stored.filter (fun e : Entry => e.1.repository = name) ++ removed.rows }
              : Shared).setMu false |>.setFlushMu false, done)
    else if c.order.Perm removed.rows then
      some ((s.setPending (c.order.foldl Pending.put s.counter.pending)).setMu false |>.setFlushMu false, done)
    else none
  | done => none

inductive Op
  | recordRepositoryDownload (repo : Repository) (username «namespace» package version : String) (bytes now : Int64)
  | recordDockerPull (repo : Repository) (username imageName reference : String) (size now : Int64)
  | flush
  | resetRepository (repository : String)

/-- `Record` of an event, up to its lock. -/
def startRecord (event : DownloadStatisticDelta) (now : Int64) : Call :=
  match normalizeDownloadEvent text event now with
  | some e => .record e
  | none => .done

/-- The start of a call, up to its first lock. -/
def Op.start : Op → Call
  | recordRepositoryDownload repo username ns package version bytes now =>
    match repositoryDownload text repo username ns package version bytes with
    | some event => startRecord text event now
    | none => .done
  | recordDockerPull repo username imageName reference size now =>
    startRecord text (dockerPull repo username imageName reference size) now
  | flush => .flush
  | resetRepository repository =>
    let repository := text.toLower (text.trimSpace repository)
    if repository = "" then .done else .reset repository

structure World where
  shared : Shared
  calls : List Call

def World.init (maxPendingKeys : Nat) : World := ⟨⟨newCounter maxPendingKeys, [], [], [], []⟩, []⟩

inductive Event
  | call (op : Op)
  | step (n : Nat) (c : Choice)

/-- A call that waits stays where it is. -/
def World.next (w : World) : Event → World
  | .call op => { w with calls := w.calls ++ [op.start text] }
  | .step n c =>
    match w.calls[n]? with
    | none => w
    | some call =>
      match call.next text w.shared c with
      | none => w
      | some (s, call') => ⟨s, w.calls.set n call'⟩

def World.run (w : World) (es : List Event) : World := es.foldl (World.next text) w

end Step

end Renop.Statistics
