import Renop.StorageWorker

/-!
# The running system

Any number of uploaders, publishers and reviewers over one store. An operation that holds `gpgReleaseStorageMutation`
(or a database transaction) is one step; the unlocked validation of a claim goes on step by step, so that everything
else can happen in between. Rows listed by `processGPGReleaseQueue` are kept in `observed`, however stale. A crash
anywhere in an operation loses the claims and the index, and `restart` follows.
-/

namespace Renop.Storage
open Crash Renop.Index

/-- How far `publishGPGRelease` is with a claimed release before it takes the lock. -/
inductive Validation
  | claimed
  | signatureRead (repo : Repository) (signature : Option Bytes)
  | verified (verification : Option Verification)
  /-- The release with its digests, ready to be published. -/
  | ready (release : GPGRelease) (verification : Option Verification)
  /-- An error that `failClaimedGPGRelease` has yet to record. -/
  | failed (error : StorageError)
deriving DecidableEq, Repr

structure Claim where
  release : GPGRelease
  stage : Validation
deriving DecidableEq, Repr

structure World where
  store : Store
  claims : List Claim
  observed : List GPGRelease

inductive Op
  | configure (settings : Settings)
  | upload (repo : Repository) (upload : PreparedUpload) (now : Int)
  | claim (now : Int)
  /-- The claim at a position goes on with its validation. -/
  | advance (i : Nat)
  | publish (i : Nat) (now : Int)
  | fail (i : Nat) (reason : String)
  /-- `ListPendingGPGReleases` at the start of `processGPGReleaseQueue`. -/
  | inspect
  | cleanup (i : Nat)
  | expire (i : Nat) (now : Int)
  | discard (localPrefix reason : String)
  | decide (task : Nat) (approve : Bool) (now : Int)
  | restart

/-- `errors.Is(err, errGPGReleaseInactive)` -/
def StorageError.isInactive : StorageError → Bool
  | .gpgReleaseInactive => true
  | .invalidateSignature cause => cause.isInactive
  | .join first second => first.isInactive || second.isInactive
  | _ => false

/-- Startup: both restores, and the scan that indexes the stored files. -/
def startup : StoreM Unit := do
  restoreGPGReleaseState
  restorePublicationReviewState
  let paths ← Prog.read fun s => s.files.keys
  Prog.forEach paths reindexPathIfPresent

def Store.reboot (s : Store) : Store := (startup { s with index := .newFileIndex } []).state

namespace World

def reboot (s : Store) : World := ⟨s.reboot, [], []⟩

/-- Run an operation; `k` says what its result means for the claims and the listed rows. -/
def perform {α : Type} (w : World) (m : StoreM α) (fs : List Fault) (k : Except StorageError α → Store → World) :
    World :=
  match m w.store fs with
  | .done r s _ => k r s
  | .crashed s => reboot s

/-- The claim goes to the next stage, or its error is kept. -/
def advanceTo {α : Type} (w : World) (i : Nat) (c : Claim) (next : α → Validation) (r : Except StorageError α)
    (s : Store) : World :=
  { w with store := s, claims := w.claims.set i { c with stage := match r with
      | .ok a => next a
      | .error e => .failed e } }

/-- One step of the unlocked part of `publishGPGRelease`. -/
def advance (crypto : Crypto) (w : World) (i : Nat) (c : Claim) (fs : List Fault) : World :=
  match c.stage with
  | .claimed => w.perform (validateClaim c.release) fs (w.advanceTo i c fun (repo, signature) =>
      .signatureRead repo signature)
  | .signatureRead repo signature =>
    w.perform (verifyClaim crypto repo c.release signature) fs (w.advanceTo i c .verified)
  | .verified verification =>
    w.perform (ensureReleaseDigests crypto c.release) fs (w.advanceTo i c fun release => .ready release verification)
  | _ => w

/-- After `publishClaimed`: an inactive release needs no failure. -/
def afterPublish (w : World) (i : Nat) (c : Claim) (r : Except StorageError Unit) (s : Store) : World :=
  match r with
  | .ok () => { w with store := s, claims := w.claims.eraseIdx i }
  | .error e =>
    if e.isInactive then { w with store := s, claims := w.claims.eraseIdx i }
    else { w with store := s, claims := w.claims.set i { c with stage := .failed e } }

def step (crypto : Crypto) (w : World) (op : Op) (fs : List Fault) : World :=
  match op with
  | .configure settings => { w with store := { w.store with settings := settings } }
  | .upload repo upload now =>
    w.perform (processUploadedFileWithReviewLocked repo upload now) fs fun _ s => { w with store := s }
  | .claim now => w.perform (claimNextGPGRelease now) fs fun r s =>
      match r with
      | .ok (some release) => { w with store := s, claims := w.claims ++ [⟨release, .claimed⟩] }
      | _ => { w with store := s }
  | .advance i =>
    match w.claims[i]? with
    | some c => w.advance crypto i c fs
    | none => w
  | .publish i now =>
    match w.claims[i]? with
    | some c =>
      match c.stage with
      | .ready release verification =>
        w.perform (publishClaimed release (verification.map Verification.record) now) fs (w.afterPublish i c)
      | _ => w
    | none => w
  | .fail i reason =>
    match w.claims[i]? with
    | some c =>
      match c.stage with
      | .failed _ => w.perform (failClaimedGPGRelease c.release reason) fs fun _ s =>
          { w with store := s, claims := w.claims.eraseIdx i }
      | _ => w
    | none => w
  | .inspect => { w with observed := w.observed ++ w.store.pendingReleases }
  | .cleanup i =>
    match w.observed[i]? with
    | some r => w.perform (cleanupTerminalGPGRelease r) fs fun _ s => { w with store := s }
    | none => w
  | .expire i now =>
    match w.observed[i]? with
    | some r => w.perform (expireGPGReleaseIfIncomplete r now) fs fun _ s => { w with store := s }
    | none => w
  | .discard localPrefix reason =>
    w.perform (discardPendingGPGUploads localPrefix reason) fs fun _ s => { w with store := s }
  | .decide task approve now =>
    w.perform (decidePublicationTask task approve now) fs fun _ s => { w with store := s }
  | .restart => reboot w.store

/-- A store with files and a catalog, but nothing pending. -/
def init (settings : Settings) (files : PathMap StoredFile) (versions : List MavenVersion) : World :=
  ⟨{ settings := settings, files := files, index := .newFileIndex, quarantine := fun _ => none, releases := [],
     signatures := fun _ => none, reviews := [], versions := versions, uuids := 0 }, [], []⟩

/-- Operations with their faults, one after another. -/
def run (crypto : Crypto) (w : World) (ops : List (Op × List Fault)) : World :=
  ops.foldl (fun w (op, fs) => w.step crypto op fs) w

end World
end Renop.Storage
