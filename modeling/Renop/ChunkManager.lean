import Renop.ChunkFill
import Renop.GoMap

/-!
# The manager of upload sessions

`Manager` of `upload/chunked.go`: the sessions by id, and the room reserved by calls of `CreateSession`. Each section under
its lock is one step, but for `BeginSessionCompletion`, which holds it across two steps of the session. What is done to a
session without the manager, chunks above all, is a step of that session.

`taken` is read by no call: which sessions were taken out of the map, and by what.
-/

namespace Renop.Upload

open CallList GoMap

def maxSessions : Nat := 256

def maxUploadMetadataLength : Nat := 4 * 1024

/-- In milliseconds. -/
def sessionTTL : Int := 15 * 60 * 1000

/-- A call of `CreateSession` that has reserved its room. -/
structure Creation where
  filename : String
  owner : String
  layout : Layout
deriving DecidableEq, Repr

inductive Taker
  | completion
  | abort
  | cleanup
deriving DecidableEq, Repr

/-- `BeginSessionCompletion` between the swap of `done` and the section of the session. -/
structure Completing where
  id : String
  session : Nat
  call : Nat
deriving DecidableEq, Repr

structure Manager where
  /-- The indices of the sessions. -/
  sessions : List (String × Nat)
  pending : Nat
  /-- Who holds the lock across steps. -/
  lock : Option Completing
  objects : List Session
  creations : List Creation
  taken : List (Nat × Taker)
deriving DecidableEq, Repr

def Manager.init : Manager := ⟨[], 0, none, [], [], []⟩

def newSession (id : String) (now : Int) (c : Creation) : Session :=
  { id, owner := c.owner, filename := c.filename, created := now, layout := c.layout
    received := List.replicate c.layout.chunkCount .free
    done := false, closed := false, aborting := false, file := true, tempPath := true
    content := List.replicate c.layout.totalSize 0, handle := true, present := true
    writers := [], completions := [], aborts := [] }

/-- `Abort` is called by the manager. -/
def Session.beginAbort (s : Session) : Session := { s with aborts := s.aborts ++ [⟨true, .begun⟩] }

def Session.ownedBy (s : Session) (username : String) : Bool := s.owner ≠ "" && s.owner = username

/-- Not done through the manager. -/
def SessionAct.direct (s : Session) : SessionAct → Bool
  | .begin managed | .abort managed => !managed
  | .check i => (s.completions[i]?).any fun c => !c.managed
  | _ => true

inductive Act
  /-- The first section of `CreateSession`. -/
  | reserve (filename owner : String) (totalSize chunkSize : Int)
  /-- Its last one; the temp file is there. -/
  | register (i : Nat) (id : String) (now : Int)
  /-- It has failed in between. -/
  | cancel (i : Nat)
  | session (o : Nat) (a : SessionAct)
  | beginSessionCompletion (id owner : String)
  /-- The section of the session, and the rest. -/
  | endSessionCompletion
  | abortOwned (id owner : String)
  | cleanupExpired (now : Int)
deriving DecidableEq, Repr

namespace Manager

def lookup (m : Manager) (id : String) : Option (Nat × Session) := do
  let entry ← m.sessions.find? fun e => e.1 = id
  let s ← m.objects[entry.2]?
  return (entry.2, s)

def expired (m : Manager) (now : Int) (e : String × Nat) : Bool :=
  (m.objects[e.2]?).any fun s => sessionTTL < now - s.created

def step (m : Manager) : Act → Option Manager
  | .reserve filename owner totalSize chunkSize =>
    if totalSize < 0 ∨ maxUploadMetadataLength < filename.utf8ByteSize ∨ owner = "" then none
    else
      let layout := Layout.of totalSize chunkSize
      if 100000 < layout.chunkCount then none
      else if m.lock ≠ none ∨ maxSessions ≤ m.sessions.length + m.pending then none
      else some { m with pending := m.pending + 1, creations := m.creations ++ [⟨filename, owner, layout⟩] }
  | .register i id now =>
    match m.creations[i]? with
    | some c =>
      -- `uuid.New()` gives an id that no session has had
      if m.lock ≠ none ∨ m.objects.any (·.id = id) then none
      else some { m with
        pending := m.pending - 1
        creations := m.creations.eraseIdx i
        objects := m.objects ++ [newSession id now c]
        sessions := assign id m.objects.length m.sessions }
    | none => none
  | .cancel i =>
    if m.lock ≠ none ∨ m.creations.length ≤ i then none
    else some { m with pending := m.pending - 1, creations := m.creations.eraseIdx i }
  | .session o a =>
    match m.objects[o]? with
    | some s => if a.direct s then (s.step a).map fun s' => { m with objects := m.objects.set o s' } else none
    | none => none
  | .beginSessionCompletion id owner =>
    if m.lock ≠ none then none
    else
      match m.lookup id with
      | some (o, s) =>
        if s.ownedBy owner then (s.step (.begin true)).map fun s' =>
          { m with
            objects := m.objects.set o s'
            lock := if s.done then none else some ⟨id, o, s.completions.length⟩ }
        else none
      | none => none
  | .endSessionCompletion =>
    match m.lock with
    | some ⟨id, o, i⟩ =>
      match m.objects[o]? with
      | some s => (s.step (.check i)).map fun s' =>
        let m := { m with objects := m.objects.set o s', lock := none }
        if (s'.completions[i]?).any (·.pc = .granted) then
          { m with sessions := drop id m.sessions, taken := m.taken ++ [(o, .completion)] }
        else m
      | none => none
    | none => none
  | .abortOwned id owner =>
    if m.lock ≠ none then none
    else
      match m.lookup id with
      | some (o, s) =>
        if s.ownedBy owner then
          some { m with
            sessions := drop id m.sessions
            objects := m.objects.set o s.beginAbort
            taken := m.taken ++ [(o, .abort)] }
        else none
      | none => none
  | .cleanupExpired now =>
    if m.lock ≠ none then none
    else
      let gone := m.sessions.filter (m.expired now)
      some { m with
        sessions := m.sessions.filter fun e => !m.expired now e
        objects := gone.foldl (fun objects e => objects.modify e.2 Session.beginAbort) m.objects
        taken := m.taken ++ gone.map fun e => (e.2, .cleanup) }

inductive Run : Manager → Prop
  | init : Run .init
  | step {m m'} (a : Act) : Run m → step m a = some m' → Run m'

def exec (acts : List Act) (m : Manager) : Option Manager := acts.foldlM step m

end Manager

end Renop.Upload
