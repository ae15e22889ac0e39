import Renop.CallList
import Renop.Slices
import Mathlib.Algebra.Order.Ring.Int

/-!
# A chunked upload session

`Session` of `upload/chunked.go`, with the calls that are under way on it: writers, completions and aborts. A section under
the session's lock is one step, and so is each access to `done`, each write to the temp file, its closing and its removal. A
reader or a write may fail at any time.
-/

namespace Renop.Upload

open CallList Slices

/-! ## Chunks -/

def minChunkSize : Int := 256 * 1024

def defaultChunkSize : Int := 4 * 1024 * 1024

def maxChunkSize : Int := 32 * 1024 * 1024

def maxPreferredChunks : Int := 2048

def suggestChunkSize (totalSize : Int) : Int :=
  if totalSize ≤ 0 then defaultChunkSize
  else if totalSize ≤ 8 * 2 ^ 20 then totalSize
  else if totalSize ≤ 32 * 2 ^ 20 then 4 * 2 ^ 20
  else if totalSize ≤ 128 * 2 ^ 20 then 8 * 2 ^ 20
  else if totalSize ≤ 512 * 2 ^ 20 then 16 * 2 ^ 20
  else if totalSize ≤ 2 * 2 ^ 30 then 24 * 2 ^ 20
  else maxChunkSize

def normalizeChunkSize (totalSize requested : Int) : Int :=
  if totalSize ≤ 0 then
    if 0 < requested then
      if maxChunkSize < requested then maxChunkSize else if requested < minChunkSize then minChunkSize else requested
    else defaultChunkSize
  else if totalSize ≤ minChunkSize then totalSize
  else
    let size := if requested ≤ 0 then suggestChunkSize totalSize else requested
    let size := if maxChunkSize < size then maxChunkSize else size
    let size := if size < minChunkSize then minChunkSize else size
    if totalSize ≤ size then totalSize
    else if maxPreferredChunks < 1 + (totalSize - 1) / size then
      let size := max (min (1 + (totalSize - 1) / maxPreferredChunks) maxChunkSize) minChunkSize
      if totalSize ≤ size then totalSize else size
    else size

theorem normalizeChunkSize_pos {totalSize : Int} (h : 0 < totalSize) (requested : Int) :
    0 < normalizeChunkSize totalSize requested := by
  have hmin : 0 < minChunkSize := by decide
  have hle : ∀ size, minChunkSize ≤ max size minChunkSize := fun size => le_max_right _ _
  unfold normalizeChunkSize
  rw [if_neg (by omega)]
  by_cases hsmall : totalSize ≤ minChunkSize
  · rwa [if_pos hsmall]
  · rw [if_neg hsmall]
    extract_lets size₁ size₂ size₃ size₄
    have h₃ : minChunkSize ≤ size₃ := by
      show minChunkSize ≤ if size₂ < minChunkSize then minChunkSize else size₂
      split_ifs <;> omega
    have h₄ : minChunkSize ≤ size₄ := hle _
    split_ifs <;> omega

/-- Sizes that fit together. -/
structure Layout where
  totalSize : Nat
  chunkSize : Nat
  chunkSize_pos : 0 < totalSize → 0 < chunkSize
deriving DecidableEq, Repr

namespace Layout

def of (totalSize requested : Int) : Layout where
  totalSize := totalSize.toNat
  chunkSize := (normalizeChunkSize totalSize requested).toNat
  chunkSize_pos h := by
    have := normalizeChunkSize_pos (Int.lt_toNat.1 h) requested
    omega

variable (l : Layout)

def chunkCount : Nat := if l.totalSize = 0 then 0 else 1 + (l.totalSize - 1) / l.chunkSize

def offset (i : Nat) : Nat := i * l.chunkSize

def expected (i : Nat) : Nat := if i + 1 = l.chunkCount then l.totalSize - l.offset i else l.chunkSize

variable {l} {i j : Nat}

theorem totalSize_le : l.totalSize ≤ l.chunkCount * l.chunkSize := by
  unfold chunkCount
  split_ifs with h
  · omega
  · have hpos := l.chunkSize_pos (by omega)
    have hlt := Nat.lt_mul_div_succ (l.totalSize - 1) hpos
    rw [Nat.mul_comm] at hlt
    rw [Nat.add_comm 1]
    omega

theorem lt_totalSize (h : i < l.chunkCount) : i * l.chunkSize < l.totalSize := by
  unfold chunkCount at h
  split_ifs at h with h0
  · omega
  · have hdiv : i ≤ (l.totalSize - 1) / l.chunkSize := by omega
    have hmul := (Nat.le_div_iff_mul_le (l.chunkSize_pos (by omega))).1 hdiv
    omega

theorem expected_le (i : Nat) : l.expected i ≤ l.chunkSize := by
  unfold expected
  split_ifs with hlast
  · have htotal := @totalSize_le l
    rw [← hlast, Nat.succ_mul] at htotal
    unfold offset
    omega
  · exact le_rfl

theorem offset_add_expected_le (h : i < l.chunkCount) : l.offset i + l.expected i ≤ l.totalSize := by
  have hlt := lt_totalSize h
  unfold expected offset
  split_ifs with hlast
  · omega
  · have hnext := lt_totalSize (show i + 1 < l.chunkCount by omega)
    rw [Nat.succ_mul] at hnext
    omega

theorem expected_pos (h : i < l.chunkCount) : 0 < l.expected i := by
  have hlt := lt_totalSize h
  have hpos := l.chunkSize_pos (by omega)
  unfold expected offset
  split_ifs <;> omega

theorem exists_chunk {b : Nat} (h : b < l.totalSize) :
    ∃ i < l.chunkCount, l.offset i ≤ b ∧ b < l.offset i + l.expected i := by
  have hpos := l.chunkSize_pos (by omega)
  have hmul := Nat.div_mul_le_self b l.chunkSize
  have hlt := Nat.lt_div_mul_add hpos (a := b)
  have hcount : b / l.chunkSize < l.chunkCount := by
    unfold chunkCount
    rw [if_neg (by omega)]
    have hle : b / l.chunkSize ≤ (l.totalSize - 1) / l.chunkSize := Nat.div_le_div_right (by omega)
    omega
  refine ⟨b / l.chunkSize, hcount, hmul, ?_⟩
  unfold expected offset
  split_ifs <;> omega

theorem disjoint (hne : i ≠ j) :
    l.offset j + l.expected j ≤ l.offset i ∨ l.offset i + l.expected i ≤ l.offset j := by
  have hi' := @expected_le l i
  have hj' := @expected_le l j
  unfold offset
  rcases Nat.lt_or_gt_of_ne hne with hlt | hlt
  · have := Nat.mul_le_mul_right l.chunkSize hlt
    rw [Nat.succ_mul] at this
    omega
  · have := Nat.mul_le_mul_right l.chunkSize hlt
    rw [Nat.succ_mul] at this
    omega

theorem slice_expected {α : Type} {c : List α} (hc : c.length = l.totalSize) (i : Nat) :
    slice c (l.offset i) (l.expected i) = slice c (i * l.chunkSize) l.chunkSize := by
  have hle := @expected_le l i
  refine List.ext_getElem? fun n => ?_
  rw [getElem?_slice, getElem?_slice]
  unfold offset
  split_ifs with h₁ h₂ h₃
  · rfl
  · omega
  · unfold expected at h₁
    split_ifs at h₁ with hlast
    · rw [List.getElem?_eq_none]
      unfold offset at h₁
      omega
    · omega
  · rfl

theorem flatMap_slice {α : Type} {c : List α} (hc : c.length = l.totalSize) :
    (List.range l.chunkCount).flatMap (fun i => slice c (l.offset i) (l.expected i)) = c := by
  simp only [slice_expected hc]
  rw [flatMap_slice_of_le]
  rw [hc]
  exact totalSize_le

end Layout

/-! ## Sessions -/

/-- `received[i]`: 0 free, 1 writing, 2 done -/
inductive Slot
  | free
  | writing
  | done
deriving DecidableEq, Repr

/-- Where a call of `WriteChunk` or `WriteChunkBytes` stands. -/
inductive WriterPC
  /-- `done` was read as 0. -/
  | checked
  | writing (written : Nat)
  /-- A read or a write has failed; the claim is still held. -/
  | failed
  /-- `finishChunk` has taken the chunk. -/
  | finished
  /-- `errChunkAlreadyDone`, which is no error to the caller. -/
  | alreadyDone
  | refused
deriving DecidableEq, Repr

structure Writer where
  index : Int
  contentLength : Int
  /-- What the reader would give. -/
  body : List UInt8
  pc : WriterPC
deriving DecidableEq, Repr

/-- Where a call of `BeginCompletion` stands. -/
inductive CompletionPC
  /-- `done` was swapped, the section comes next. -/
  | entered
  | granted
  /-- `errSessionFinished` -/
  | finished
  /-- `errChunksIncomplete` -/
  | incomplete
deriving DecidableEq, Repr

structure Completion where
  /-- Through the manager. -/
  managed : Bool
  pc : CompletionPC
deriving DecidableEq, Repr

/-- Where a call of `Abort` stands; `file` and `path` are what its section has found. -/
inductive AbortPC
  | begun
  | closing (file path : Bool)
  | removing (path : Bool)
  | storing
  | ended
deriving DecidableEq, Repr

structure Abort where
  managed : Bool
  pc : AbortPC
deriving DecidableEq, Repr

structure Session where
  id : String
  owner : String
  filename : String
  created : Int
  layout : Layout
  received : List Slot
  done : Bool
  closed : Bool
  aborting : Bool
  /-- `file != nil` -/
  file : Bool
  /-- `TempPath != ""` -/
  tempPath : Bool
  /-- The temp file: its bytes, whether its handle is open, and whether it is there. -/
  content : List UInt8
  handle : Bool
  present : Bool
  writers : List Writer
  completions : List Completion
  aborts : List Abort
deriving DecidableEq, Repr

def Writer.enter (pc : WriterPC) (w : Writer) : Writer := { w with pc }

def Completion.enter (pc : CompletionPC) (c : Completion) : Completion := { c with pc }

def Abort.enter (pc : AbortPC) (a : Abort) : Abort := { a with pc }

inductive ClaimError
  | sessionClosed
  | invalidIndex
  | emptyFile
  | alreadyDone
  | inProgress
  | unexpectedSize (want got : Int)
deriving DecidableEq, Repr

namespace Session
variable (s : Session)

/-- The section of `claimChunk`, up to the claim itself. -/
def claimChunk (index contentLength : Int) : Except ClaimError Unit :=
  if s.closed || s.aborting then .error .sessionClosed
  else if index < 0 ∨ 0 < s.layout.chunkCount ∧ s.layout.chunkCount ≤ index then .error .invalidIndex
  else if s.layout.chunkCount = 0 then .error .emptyFile
  else
    match s.received.getD index.toNat .free with
    | .done => .error .alreadyDone
    | .writing => .error .inProgress
    | .free =>
      let expected := s.layout.expected index.toNat
      if 0 ≤ contentLength ∧ contentLength ≠ expected then .error (.unexpectedSize expected contentLength) else .ok ()

def put (i : Nat) (slot : Slot) : Session := { s with received := s.received.set i slot }

def enterWriter (i : Nat) (pc : WriterPC) : Session := { s with writers := s.writers.modify i (Writer.enter pc) }

/-- `releaseClaim`, for the writer `i`. -/
def releaseClaim (i index : Nat) : Session :=
  (if s.received[index]? = some .writing then s.put index .free else s).enterWriter i .refused

/-- `finishChunk` -/
def finishChunk (i index : Nat) : Session :=
  if s.closed || s.aborting then (s.put index .free).enterWriter i .refused else (s.put index .done).enterWriter i .finished

/-- The section of `BeginCompletion`. -/
def beginCompletion (i : Nat) : Session :=
  if s.closed || s.aborting then { s with completions := s.completions.modify i (Completion.enter .finished) }
  else if s.received.all (· = .done) then { s with completions := s.completions.modify i (Completion.enter .granted) }
  else { s with done := false, completions := s.completions.modify i (Completion.enter .incomplete) }

def enterAbort (i : Nat) (pc : AbortPC) : Session := { s with aborts := s.aborts.modify i (Abort.enter pc) }

end Session

/-- What is done to a session. -/
inductive SessionAct
  /-- `WriteChunk` is called, and reads `done`. -/
  | write (index contentLength : Int) (body : List UInt8)
  | claim (i : Nat)
  /-- The next bytes are written. -/
  | put (i n : Nat)
  | fail (i : Nat)
  /-- The copy is over: the claim is released, or the chunk finished. -/
  | settle (i : Nat)
  /-- `BeginCompletion` is called, and swaps `done`. -/
  | begin (managed : Bool)
  | check (i : Nat)
  | abort (managed : Bool)
  | abortStep (i : Nat)
  | markCompleted
deriving DecidableEq, Repr

namespace Session

def step (s : Session) : SessionAct → Option Session
  | .write index contentLength body =>
    some { s with writers := s.writers ++ [⟨index, contentLength, body, if s.done then .refused else .checked⟩] }
  | .claim i =>
    match s.writers[i]? with
    | some ⟨index, contentLength, _, .checked⟩ =>
      match s.claimChunk index contentLength with
      | .ok () => some ((s.put index.toNat .writing).enterWriter i (.writing 0))
      | .error .alreadyDone => some (s.enterWriter i .alreadyDone)
      | .error _ => some (s.enterWriter i .refused)
    | _ => none
  | .put i n =>
    match s.writers[i]? with
    | some ⟨index, _, body, .writing written⟩ =>
      if s.handle ∧ written + n ≤ s.layout.expected index.toNat ∧ written + n ≤ body.length then
        let piece := (body.drop written).take n
        some ({ s with content := overwrite s.content (s.layout.offset index.toNat + written) piece }.enterWriter i
          (.writing (written + n)))
      else none
    | _ => none
  | .fail i =>
    match s.writers[i]? with
    | some ⟨_, _, _, .writing _⟩ => some (s.enterWriter i .failed)
    | _ => none
  | .settle i =>
    match s.writers[i]? with
    | some ⟨index, _, body, .writing written⟩ =>
      if written = s.layout.expected index.toNat then some (s.finishChunk i index.toNat)
      else if written = body.length then some (s.releaseClaim i index.toNat)
      else none
    | some ⟨index, _, _, .failed⟩ => some (s.releaseClaim i index.toNat)
    | _ => none
  | .begin managed =>
    if s.done then some { s with completions := s.completions ++ [⟨managed, .finished⟩] }
    else some { s with done := true, completions := s.completions ++ [⟨managed, .entered⟩] }
  | .check i =>
    match s.completions[i]? with
    | some ⟨_, .entered⟩ => some (s.beginCompletion i)
    | _ => none
  | .abort managed => some { s with aborts := s.aborts ++ [⟨managed, .begun⟩] }
  | .abortStep i =>
    match s.aborts[i]? with
    | some ⟨_, .begun⟩ =>
      if s.aborting then some (s.enterAbort i .ended)
      else some ({ s with aborting := true, file := false, tempPath := false, closed := true }.enterAbort i
        (.closing s.file s.tempPath))
    | some ⟨_, .closing file path⟩ => some ({ s with handle := s.handle && !file }.enterAbort i (.removing path))
    | some ⟨_, .removing path⟩ => some ({ s with present := s.present && !path }.enterAbort i .storing)
    | some ⟨_, .storing⟩ => some ({ s with done := true }.enterAbort i .ended)
    | _ => none
  | .markCompleted =>
    -- called by the one that was granted
    if s.completions.any (·.pc = .granted) then
      some { s with closed := true, handle := s.handle && !s.file, file := false, done := true }
    else none

end Session

/-- The steps of writers. -/
def SessionAct.Writes : SessionAct → Prop
  | .write .. | .claim _ | .put .. | .fail _ | .settle _ => True
  | _ => False

namespace Session

variable {s s' : Session}

theorem releaseClaim_eq (s : Session) (i j : Nat) :
    ∃ received writers, s.releaseClaim i j = { s with received := received, writers := writers } := by
  unfold releaseClaim
  split_ifs <;> exact ⟨_, _, rfl⟩

/-- What a writer changes. -/
theorem step_writes {a : SessionAct} (h : s.step a = some s') (ha : a.Writes) :
    ∃ received content writers, s' = { s with received := received, content := content, writers := writers } := by
  cases a with
  | write index contentLength body =>
    obtain rfl := Option.some.inj h
    exact ⟨_, _, _, rfl⟩
  | claim i =>
    simp only [step] at h
    split at h
    · split at h <;> obtain rfl := Option.some.inj h <;> exact ⟨_, _, _, rfl⟩
    · simp at h
  | put i n =>
    simp only [step] at h
    split at h
    · split_ifs at h
      obtain rfl := Option.some.inj h
      exact ⟨_, _, _, rfl⟩
    · simp at h
  | fail i =>
    simp only [step] at h
    split at h
    · obtain rfl := Option.some.inj h
      exact ⟨_, _, _, rfl⟩
    · simp at h
  | settle i =>
    simp only [step] at h
    split at h
    · split_ifs at h
      · obtain rfl := Option.some.inj h
        unfold finishChunk
        split_ifs <;> exact ⟨_, _, _, rfl⟩
      · obtain rfl := Option.some.inj h
        obtain ⟨_, _, heq⟩ := releaseClaim_eq s i _
        exact ⟨_, _, _, heq⟩
    · obtain rfl := Option.some.inj h
      obtain ⟨_, _, heq⟩ := releaseClaim_eq s i _
      exact ⟨_, _, _, heq⟩
    · simp at h
  | begin _ | check _ | abort _ | abortStep _ | markCompleted => exact ha.elim

/-- What the other calls change. -/
theorem step_not_writes {a : SessionAct} (h : s.step a = some s') (ha : ¬a.Writes) :
    ∃ done closed aborting file tempPath handle present completions aborts, s' =
      { s with
        done := done, closed := closed, aborting := aborting, file := file, tempPath := tempPath, handle := handle
        present := present, completions := completions, aborts := aborts } := by
  cases a with
  | write _ _ _ | claim _ | put _ _ | fail _ | settle _ => exact absurd trivial ha
  | begin managed =>
    simp only [step] at h
    split_ifs at h <;> obtain rfl := Option.some.inj h <;> exact ⟨_, _, _, _, _, _, _, _, _, rfl⟩
  | check i =>
    simp only [step] at h
    split at h
    · obtain rfl := Option.some.inj h
      unfold beginCompletion
      split_ifs <;> exact ⟨_, _, _, _, _, _, _, _, _, rfl⟩
    · simp at h
  | abort managed =>
    obtain rfl := Option.some.inj h
    exact ⟨_, _, _, _, _, _, _, _, _, rfl⟩
  | abortStep i =>
    simp only [step] at h
    split at h
    · split_ifs at h <;> obtain rfl := Option.some.inj h <;> exact ⟨_, _, _, _, _, _, _, _, _, rfl⟩
    · obtain rfl := Option.some.inj h
      exact ⟨_, _, _, _, _, _, _, _, _, rfl⟩
    · obtain rfl := Option.some.inj h
      exact ⟨_, _, _, _, _, _, _, _, _, rfl⟩
    · obtain rfl := Option.some.inj h
      exact ⟨_, _, _, _, _, _, _, _, _, rfl⟩
    · simp at h
  | markCompleted =>
    simp only [step] at h
    split_ifs at h
    obtain rfl := Option.some.inj h
    exact ⟨_, _, _, _, _, _, _, _, _, rfl⟩

theorem step_id_owner {a : SessionAct} (h : s.step a = some s') :
    s'.id = s.id ∧ s'.owner = s.owner ∧ s'.layout = s.layout := by
  by_cases ha : a.Writes
  · obtain ⟨_, _, _, rfl⟩ := step_writes h ha
    exact ⟨rfl, rfl, rfl⟩
  · obtain ⟨_, _, _, _, _, _, _, _, _, rfl⟩ := step_not_writes h ha
    exact ⟨rfl, rfl, rfl⟩

end Session

end Renop.Upload
