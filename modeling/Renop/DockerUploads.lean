import Renop.DockerIsolation
import Renop.DockerStore

/-!
# What the store keeps

`CommitBlob` hashes a staged file and moves what has its name then. Between the two, and after them, a request that has the
file open may write it, and another file may have the name. As long as neither happens a blob is the content of its digest;
and an upload that nobody else touches is stored in the order in which it was sent, if every piece is written where the file
ends.
-/

namespace Renop.DockerStore

open FileSystem Interleave Sql
open FileSystem.FS (SameAt Sound)
open Renop.Docker

/-! ### The invariant -/

/-- The path of an upload session. -/
def Home (env : Env) (path : String) : Prop :=
  ∃ r id, (env.repos r).isSome = true ∧ plainID id = true ∧ path = stagingPath env r id

/-- The file of a blob was hashed, and has not changed. -/
structure Addressed (env : Env) (calculateDigest : List UInt8 → String) (s : Store) : Prop where
  sound : s.fs.Sound (Home env)
  hashed : ∀ file digest, (file, digest) ∈ s.hashed → file < s.fs.next ∧ calculateDigest (s.fs.content file) = digest
  blobs : ∀ r digest file, (env.repos r).isSome = true → plainDigest env digest = true →
    s.fs.names (blobPath env r digest) = some file →
    ∃ digest', (file, digest') ∈ s.hashed ∧ cleanDigestHash env digest' = cleanDigestHash env digest

/-- No write goes to a file that was hashed, and what is moved is the file that was. -/
def Careful : FileCall → Store → Prop
  | .other, _ => True
  | .writeAt file _, s => ∀ digest, (file, digest) ∉ s.hashed
  | .rename path file, s => s.fs.names path = some file

def AtEnd : FileCall → Store → Prop
  | .writeAt file off, s => off = (s.fs.content file).length
  | _, _ => True

/-- Nothing that was hashed or stored is forgotten. -/
structure Later (s s' : Store) : Prop where
  next : s.fs.next ≤ s'.fs.next
  birth : ∀ file, file < s.fs.next → s'.fs.birth file = s.fs.birth file
  hashed : ∀ x ∈ s.hashed, x ∈ s'.hashed
  stored : ∀ x ∈ s.stored, x ∈ s'.stored

/-- The session of a request, and whether nobody else has it; then its writes are at the end of the file. -/
structure Session (env : Env) where
  repository : String
  uploadUUID : String
  alone : Prop
  good : FileCall → Store → Prop
  plain : plainID uploadUUID = true
  careful : ∀ call s, good call s → Careful call s
  atEnd : alone → ∀ call s, good call s → AtEnd call s

namespace Session
variable {env : Env} (u : Session env)

def path : String := stagingPath env u.repository u.uploadUUID

/-- What the request relies on. -/
structure Relied (s s' : Store) : Prop where
  later : Later s s'
  same : u.alone → SameAt u.path s.fs s'.fs

/-- What it leaves to the others. -/
structure Beyond (s s' : Store) : Prop where
  later : Later s s'
  same : ∀ p, Home env p → p ≠ u.path → SameAt p s.fs s'.fs

/-- A file that the request may have open. -/
structure Opened (file : Nat) (s : Store) : Prop where
  known : file < s.fs.next
  birth : s.fs.birth file = u.path

structure Staged (file : Nat) (content : List UInt8) (s : Store) : Prop where
  opened : u.Opened file s
  name : s.fs.names u.path = some file
  content : s.fs.content file = content

/-- The session has this content, or there is none yet. -/
def Begun (content : List UInt8) (s : Store) : Prop :=
  (s.fs.names u.path = none ∧ content = []) ∨ ∃ file, u.Staged file content s

variable {u} {s s' s'' : Store} {file : Nat} {content : List UInt8}

end Session

section Later
variable {env : Env} {u : Session env} {s s' s'' : Store} {file : Nat} {content : List UInt8}

theorem Later.refl (s : Store) : Later s s := ⟨Nat.le_refl _, fun _ _ => rfl, fun _ => id, fun _ => id⟩

theorem Later.trans (h : Later s s') (h' : Later s' s'') : Later s s'' := by
  refine ⟨Nat.le_trans h.next h'.next, fun file hfile => ?_, fun x hx => h'.hashed x (h.hashed x hx), fun x hx =>
    h'.stored x (h.stored x hx)⟩
  rw [h'.birth file (Nat.lt_of_lt_of_le hfile h.next), h.birth file hfile]

theorem Session.Relied.trans (h : u.Relied s s') (h' : u.Relied s' s'') : u.Relied s s'' :=
  ⟨h.later.trans h'.later, fun halone => (h.same halone).trans (h'.same halone)⟩

theorem Session.Beyond.refl (u : Session env) (s : Store) : u.Beyond s s := ⟨.refl s, fun p _ _ => .refl p _⟩

theorem Session.Opened.later (h : u.Opened file s) (hs : u.Relied s s') : u.Opened file s' :=
  ⟨Nat.lt_of_lt_of_le h.known hs.later.next, (hs.later.birth file h.known).trans h.birth⟩

theorem Session.Staged.later (h : u.Staged file content s) (halone : u.alone) (hs : u.Relied s s') :
    u.Staged file content s' := by
  have hsame := hs.same halone
  refine ⟨h.opened.later hs, hsame.name.trans h.name, ?_⟩
  rw [hsame.content file h.opened.known h.opened.birth, h.content]

theorem Session.Begun.later (h : u.Begun content s) (halone : u.alone) (hs : u.Relied s s') : u.Begun content s' := by
  rcases h with ⟨hname, hcontent⟩ | ⟨file, hfile⟩
  · exact .inl ⟨(hs.same halone).name.trans hname, hcontent⟩
  · exact .inr ⟨file, hfile.later halone hs⟩

end Later

/-! ### Programs -/

section Rules
variable {env : Env} {calculateDigest : List UInt8 → String} {u : Session env} {α β : Type} {Q : α → Store → Prop}
    {R : β → Store → Prop} {p : StoreProc α} {k : α → StoreProc β} {s : Store}

/-- A program of a request that keeps the blobs, whatever the other requests do. -/
def Serves (calculateDigest : List UInt8 → String) (u : Session env) (p : StoreProc α) (Q : α → Store → Prop)
    (s : Store) : Prop :=
  p.Relies u.Relied u.Beyond (Addressed env calculateDigest) u.good (fun r s => ∀ a, r = .ok a → Q a s) s

theorem Serves.mono {Q' : α → Store → Prop} (h : Serves calculateDigest u p Q s) (hQ : ∀ a s, Q a s → Q' a s) :
    Serves calculateDigest u p Q' s :=
  Proc.Relies.mono h fun _ s hr a ha => hQ a s (hr a ha)

theorem Serves.done {r : Except DockerError α} (h : ∀ a, r = .ok a → Q a s) : Serves calculateDigest u (.done r) Q s := h

theorem Serves.pure {a : α} (h : Q a s) : Serves calculateDigest u (.done (.ok a)) Q s := fun _ hb => Except.ok.inj hb ▸ h

theorem Serves.throw (e : DockerError) : Serves calculateDigest u (Proc.throw e) Q s := fun _ ha => nomatch ha

theorem Serves.bind (hp : Serves calculateDigest u p Q s) (hk : ∀ a s, Q a s → Serves calculateDigest u (k a) R s) :
    Serves calculateDigest u (p.bind k) R s :=
  Proc.Relies.bind hp (fun a s ha => hk a s (ha a rfl)) fun _ _ _ _ hb => nomatch hb

theorem Serves.attempt (hp : Serves calculateDigest u p Q s) :
    Serves calculateDigest u p.attempt (fun r s => ∀ a, r = .ok a → Q a s) s :=
  Proc.Relies.attempt (Proc.Relies.mono hp fun _ _ hr _ hb => Except.ok.inj hb ▸ hr)

theorem Serves.require_bind {c : Prop} [Decidable c] {e : DockerError} {k : Unit → StoreProc β}
    (h : c → Serves calculateDigest u (k ()) R s) :
      Serves calculateDigest u ((Proc.ofExcept (require c e)).bind k) R s := by
  by_cases hc : c
  · have hreq : require c e = .ok () := by simp [require, hc]
    rw [hreq]
    exact h hc
  · have hreq : require c e = .error e := by simp [require, hc]
    rw [hreq]
    exact Serves.throw e

theorem Serves.call {e : DockerError} {f : Store → Except DockerError (α × Store)}
    (h : ∀ t a t', u.Relied s t → Addressed env calculateDigest t → f t = .ok (a, t') →
      Addressed env calculateDigest t' ∧ u.Beyond t t' ∧ Q a t') : Serves calculateDigest u (Proc.call .other e f)
        Q s := by
  refine Proc.Relies.call (.refl u) (fun _ _ _ _ _ ha => nomatch ha) fun t a t' ht hinv _ hf => ?_
  obtain ⟨hinv', hbeyond, hQ⟩ := h t a t' ht hinv hf
  exact ⟨hinv', hbeyond, fun b hb => Except.ok.inj hb ▸ hQ⟩

theorem Serves.ask {e : DockerError} {f : Store → Except DockerError α}
    (h : ∀ t a, u.Relied s t → Addressed env calculateDigest t → f t = .ok a → Q a t) :
    Serves calculateDigest u (Proc.ask .other e f) Q s := by
  refine Proc.Relies.ask (.refl u) (fun _ _ _ _ _ ha => nomatch ha) fun t a ht hinv hf b hb => ?_
  exact Except.ok.inj hb ▸ h t a ht hinv hf

theorem Serves.checked {P : Store → Prop} {e : DockerError} (hP : ∀ t, u.Relied s t → P t) :
    Serves calculateDigest u (checked e) (fun _ t => P t) s :=
  .ask fun t _ ht _ _ => hP t ht

theorem Serves.look {P : Store → Prop} {f : Bool → Store → α} (hP : ∀ t, u.Relied s t → P t) :
    Serves calculateDigest u (Proc.atomic .other fun fail t => (f fail t, t)) (fun _ t => P t) s :=
  Proc.Relies.atomic fun t _ ht hinv _ => ⟨hinv, .refl u t, fun _ _ => hP t ht⟩

end Rules

/-! ### Steps -/

section Steps
variable {env : Env} {calculateDigest : List UInt8 → String} {u : Session env} {s t t' : Store} {file : Nat}
    {content : List UInt8}

attribute [local irreducible] blobPath stagingPath parentDir Index.pathClean parseRepositoryAndImage trimSlash

theorem home_path (u : Session env) (hr : (env.repos u.repository).isSome = true) : Home env u.path :=
  ⟨u.repository, u.uploadUUID, hr, u.plain, rfl⟩

theorem home_ne_blobPath (henv : env.Named) {p r digest : String} (hp : Home env p) (hr : (env.repos r).isSome = true)
    (hd : plainDigest env digest = true) : p ≠ blobPath env r digest := by
  obtain ⟨r', id, hr', hid, rfl⟩ := hp
  exact stagingPath_ne_blobPath (henv.plain r' hr') (henv.plain r hr) hid hd

theorem Addressed.sessions (henv : env.Named) (ht : Addressed env calculateDigest t) (hhashed : t'.hashed = t.hashed)
    (hsound : t'.fs.Sound (Home env)) (hnames : ∀ p, ¬Home env p → t'.fs.names p = t.fs.names p ∨ t'.fs.names p = none)
    (hnext : t.fs.next ≤ t'.fs.next)
    (hcontent : ∀ file digest, (file, digest) ∈ t.hashed → t'.fs.content file = t.fs.content file) :
      Addressed env calculateDigest t' := by
  refine ⟨hsound, fun file digest hfile => ?_, fun r digest file hr hd hname => ?_⟩ <;> rw [hhashed] at *
  · obtain ⟨hlt, hdigest⟩ := ht.hashed file digest hfile
    refine ⟨Nat.lt_of_lt_of_le hlt hnext, ?_⟩
    rw [hcontent file digest hfile, hdigest]
  · have hblob : ¬Home env (blobPath env r digest) := fun hp => home_ne_blobPath henv hp hr hd rfl
    rcases hnames _ hblob with hsame | hnone
    · exact ht.blobs r digest file hr hd (hsame ▸ hname)
    · exact absurd hname (by rw [hnone]; exact nofun)

theorem Addressed.congr (ht : Addressed env calculateDigest t) (hfs : t'.fs = t.fs) (hhashed : t'.hashed = t.hashed) :
    Addressed env calculateDigest t' := by
  refine ⟨hfs ▸ ht.sound, fun file digest hfile => ?_, fun r digest file hr hd hname => ?_⟩ <;> rw [hhashed] at * <;> rw
    [hfs] at *
  · exact ht.hashed file digest hfile
  · exact ht.blobs r digest file hr hd hname

theorem Later.congr (hfs : t'.fs = t.fs) (hhashed : t'.hashed = t.hashed) (hstored : t'.stored = t.stored) : Later t t' :=
  ⟨hfs ▸ Nat.le_refl _, fun _ _ => hfs ▸ rfl, fun _ => hhashed ▸ id, fun _ => hstored ▸ id⟩

theorem Session.Beyond.congr (u : Session env) (hfs : t'.fs = t.fs) (hhashed : t'.hashed = t.hashed)
    (hstored : t'.stored = t.stored) :
    u.Beyond t t' :=
  ⟨.congr hfs hhashed hstored, fun p _ _ => hfs ▸ .refl p _⟩

theorem makeDir_serves {P : Store → Prop} {path : String} (hP : ∀ t, u.Relied s t → P t)
    (hdirs : ∀ t dirs, P t → P { t with dirs }) :
    Serves calculateDigest u (makeDir path) (fun _ t => P t) s := by
  refine Proc.Relies.tell (.refl u) (fun _ _ _ _ _ ha => nomatch ha) fun t t' ht hinv _ hf => ?_
  obtain rfl := Except.ok.inj hf
  have hfs := t.fs_mkdirAll (parentDir path)
  have hhashed := t.hashed_mkdirAll (parentDir path)
  exact ⟨hinv.congr hfs hhashed, .congr u hfs hhashed (t.stored_mkdirAll _), fun _ _ => hdirs t _ (hP t ht)⟩

/-- `O_CREATE`: the file of the session, or a new one. -/
theorem openFile_serves (henv : env.Named) (hr : (env.repos u.repository).isSome = true) (e : DockerError)
    (hbegun : u.alone → u.Begun content s) :
    Serves calculateDigest u (openFile u.path e) (fun file t => u.Opened file t ∧ (u.alone → u.Staged file content t))
      s := by
  refine .call fun t file t' ht hinv hf => ?_
  split at hf
  swap
  · cases hf
  simp only [Except.ok.injEq, Prod.mk.injEq] at hf
  obtain ⟨rfl, rfl⟩ := hf
  have hhome := home_path u hr
  have hcases := FS.openCreate_cases t.fs u.path
  have hfile : (t.fs.openCreate u.path).2.names u.path = some (t.fs.openCreate u.path).1 := FS.openCreate_file
  have hsound := hinv.sound.openCreate u.path
  have hopened : u.Opened (t.fs.openCreate u.path).1 { t with fs := (t.fs.openCreate u.path).2 } :=
    ⟨hsound.known _ _ hfile, hsound.born _ _ hhome hfile⟩
  refine ⟨hinv.sessions henv rfl hsound (fun p hp => .inl ?_) ?_ fun file digest hmem => ?_,
    ⟨⟨?_, fun file hlt => ?_, fun _ => id, fun _ => id⟩, fun p _ hne => .openCreate t.fs hne⟩, hopened, fun halone =>
    ⟨hopened, hfile, ?_⟩⟩
  · have hne : p ≠ u.path := fun h => hp (h ▸ hhome)
    exact (SameAt.openCreate t.fs hne).name
  · rcases hcases with ⟨h, -, hopen⟩ | ⟨-, hopen⟩ <;> rw [hopen]
    exact Nat.le_succ _
  · have hlt := (hinv.hashed file digest hmem).1
    rcases hcases with ⟨h, -, hopen⟩ | ⟨-, hopen⟩ <;> rw [hopen]
    simp only [FS.create]
    rw [if_neg (by omega)]
  · rcases hcases with ⟨h, -, hopen⟩ | ⟨-, hopen⟩ <;> rw [hopen]
    exact Nat.le_succ _
  · rcases hcases with ⟨h, -, hopen⟩ | ⟨-, hopen⟩ <;> rw [hopen]
    simp only [FS.create]
    rw [if_neg (by omega)]
  · rcases (hbegun halone).later halone ht with ⟨hnone, rfl⟩ | ⟨h, hstaged⟩
    · rcases hcases with ⟨h, hname, -⟩ | ⟨-, hopen⟩
      · rw [hnone] at hname
        cases hname
      · rw [hopen]
        simp [FS.create]
    · rcases hcases with ⟨h', hname, hopen⟩ | ⟨hname, -⟩
      · rw [hstaged.name] at hname
        obtain rfl := Option.some.inj hname
        rw [hopen]
        exact hstaged.content
      · rw [hstaged.name] at hname
        cases hname

theorem stageBlob_serves (henv : env.Named) (hr : (env.repos u.repository).isSome = true)
    (hbegun : u.alone → u.Begun content s) :
    Serves calculateDigest u (stageBlob env u.repository u.uploadUUID)
      (fun file t => u.Opened file t ∧ (u.alone → u.Staged file content t)) s := by
  have hdir : Serves calculateDigest u (makeDir u.path) (fun _ t => u.alone → u.Begun content t) s := by
    refine makeDir_serves (fun t ht halone => (hbegun halone).later halone ht) fun t dirs h halone => ?_
    rcases h halone with hnone | ⟨file, hfile⟩
    · exact .inl hnone
    · exact .inr ⟨file, ⟨hfile.opened.known, hfile.opened.birth⟩, hfile.name, hfile.content⟩
  exact hdir.bind fun _ t ht => openFile_serves henv hr .uploadInvalid ht

theorem issue_serves {repository uploadUUID : String} {P : Store → Prop} (hP : ∀ t, u.Relied s t → P t)
    (hsessions : ∀ t sessions, P t → P { t with sessions }) :
    Serves calculateDigest u (Proc.modify .other fun s => { s with sessions := (repository, uploadUUID) :: s.sessions })
      (fun _ t => P t) s :=
  fun t ht hinv _ _ => ⟨hinv.congr rfl rfl, .congr u rfl rfl rfl, fun _ _ => hsessions t _ (hP t ht)⟩

theorem Session.Opened.write (henv : env.Named) (hopen : u.Opened file t) (hinv : Addressed env calculateDigest t)
    (hcareful : ∀ digest, (file, digest) ∉ t.hashed) (off : Nat) (data : List UInt8) :
    Addressed env calculateDigest { t with fs := t.fs.writeAt 0 file off data } ∧
      u.Beyond t { t with fs := t.fs.writeAt 0 file off data } := by
  refine ⟨hinv.sessions henv rfl (hinv.sound.writeAt _ _ _ _) (fun p _ => .inl rfl) (Nat.le_refl _) fun k digest hk => ?_,
    ⟨⟨Nat.le_refl _, fun _ _ => rfl, fun _ => id, fun _ => id⟩, fun p _ hne => ?_⟩⟩
  · have hne : k ≠ file := fun h => hcareful digest (h ▸ hk)
    exact if_neg hne
  · exact .writeAt t.fs 0 off data fun hbirth => hne (hbirth.symm.trans hopen.birth)

theorem writeStaged_serves (henv : env.Named) {off : Nat} {body : Body} (hopened : u.Opened file s)
    (hstaged : u.alone → u.Staged file content s) :
    Serves calculateDigest u (writeStaged file off body)
      (fun _ t => u.Opened file t ∧ (u.alone → u.Staged file (content ++ body.bytes) t)) s := by
  intro t ht hinv fail hgood
  have hopen := hopened.later ht
  obtain ⟨hinv', hbeyond⟩ := hopen.write henv hinv (u.careful _ _ hgood) off
    (if fail then body.bytes.take body.torn else body.bytes)
  refine ⟨hinv', hbeyond, fun a ha => ?_⟩
  cases fail with
  | true => cases ha
  | false =>
    have hopen' : u.Opened file { t with fs := t.fs.writeAt 0 file off body.bytes } := ⟨hopen.known, hopen.birth⟩
    refine ⟨hopen', fun halone => ⟨hopen', ((hstaged halone).later halone ht).name, ?_⟩⟩
    have hcontent := ((hstaged halone).later halone ht).content
    have hoff : off = (t.fs.content file).length := u.atEnd halone _ _ hgood
    show (if file = file then FS.patched 0 (t.fs.content file) off body.bytes else t.fs.content file) = content ++ body.bytes
    rw [if_pos rfl, hoff, FS.patched_end, hcontent]

theorem discard_serves (henv : env.Named) (hr : (env.repos u.repository).isSome = true) :
    Serves calculateDigest u (discard env u.repository u.uploadUUID) (fun _ _ => True) s := by
  refine Serves.bind (Q := fun _ _ => True) (.look fun _ _ => trivial) fun _ s₁ _ => ?_
  refine Proc.Relies.atomic fun t fail ht hinv _ => ?_
  cases fail with
  | true => exact ⟨hinv.congr rfl rfl, .congr u rfl rfl rfl, fun _ _ => trivial⟩
  | false =>
    refine ⟨hinv.sessions henv rfl (hinv.sound.remove u.path) (fun p hp => .inl ?_) (Nat.le_refl _) fun _ _ _ => rfl,
      ⟨⟨Nat.le_refl _, fun _ _ => rfl, fun _ => id, fun _ => id⟩, fun p _ hne => .remove t.fs hne⟩, fun _ _ =>
        trivial⟩
    have hne : p ≠ u.path := fun h => hp (h ▸ home_path u hr)
    exact (SameAt.remove t.fs hne).name

theorem orDiscard_serves {α : Type} (henv : env.Named) (hr : (env.repos u.repository).isSome = true) {p : StoreProc α}
    {Q : α → Store → Prop}
    (hp : Serves calculateDigest u p Q s) : Serves calculateDigest u (orDiscard env u.repository u.uploadUUID p) Q s := by
  refine hp.attempt.bind fun r s₁ hQ => ?_
  cases r with
  | ok a => exact .pure (hQ a rfl)
  | error e => exact (discard_serves henv hr).bind fun _ _ _ => .throw e

theorem stagedDigest_serves {P : Store → Prop} (hP : ∀ t, u.Relied s t → P t) :
    Serves calculateDigest u (stagedDigest calculateDigest u.path) (fun _ t => P t) s := by
  refine Serves.bind (Q := fun _ t => u.Relied s t) (.ask fun t _ ht _ _ => ht) fun file s₁ hs₁ => ?_
  exact .ask fun t _ ht _ _ => hP t (hs₁.trans ht)

/-- The file that is moved was hashed, so its new name is that of its digest. -/
theorem commitBlob_serves (henv : env.Named) (hplain : ∀ content, plainDigest env (calculateDigest content) = true)
    (hr : (env.repos u.repository).isSome = true) {digest : String} (hstaged : u.alone → u.Staged file content s) :
    Serves calculateDigest u (commitBlob env calculateDigest u.repository u.uploadUUID digest)
      (fun _ t => u.alone → (blobPath env u.repository digest, content) ∈ t.stored) s := by
  refine Serves.bind (Q := fun _ t => u.Relied s t) (.checked fun t ht => ht) fun _ s₁ h₁ => ?_
  refine Serves.bind (Q := fun _ t => u.Relied s t) (.ask fun t _ ht _ _ => h₁.trans ht) fun size s₂ h₂ => ?_
  have hopen : Serves calculateDigest u (openStaged u.path) (fun k t => u.Relied s t ∧ k < t.fs.next) s₂ := by
    refine .ask fun t k ht hinv hf => ⟨h₂.trans ht, ?_⟩
    exact hinv.sound.known _ _ (orError_ok.1 hf)
  refine hopen.bind fun k s₃ ⟨h₃, hk⟩ => ?_
  have hhash : Serves calculateDigest u (Proc.call .other .uploadInvalid fun s =>
      .ok (calculateDigest (s.fs.content k), if calculateDigest (s.fs.content k) = digest then { s with hashed :=
        (k, digest) :: s.hashed } else s))
      (fun actual t => u.Relied s t ∧ plainDigest env actual = true ∧ (actual = digest → (k, digest) ∈ t.hashed))
          s₃ := by
    refine .call fun t actual t' ht hinv hf => ?_
    simp only [Except.ok.injEq, Prod.mk.injEq] at hf
    obtain ⟨rfl, rfl⟩ := hf
    split
    · rename_i hactual
      have hlater : Later t { t with hashed := (k, digest) :: t.hashed } :=
        ⟨Nat.le_refl _, fun _ _ => rfl, fun _ => List.mem_cons_of_mem _, fun _ => id⟩
      refine ⟨⟨hinv.sound, fun k' d hmem => ?_, fun r d k' hr' hd hname => ?_⟩, ⟨hlater, fun p _ _ => .refl p _⟩,
        h₃.trans (ht.trans ⟨hlater, fun _ => .refl _ _⟩), hplain _, fun _ => List.mem_cons_self⟩
      · rcases List.mem_cons.1 hmem with heq | hmem
        · obtain ⟨rfl, rfl⟩ := Prod.mk.inj heq
          exact ⟨Nat.lt_of_lt_of_le hk ht.later.next, hactual⟩
        · exact hinv.hashed k' d hmem
      · obtain ⟨d', hmem, hclean⟩ := hinv.blobs r d k' hr' hd hname
        exact ⟨d', List.mem_cons_of_mem _ hmem, hclean⟩
    · rename_i hactual
      exact ⟨hinv, .refl u t, h₃.trans ht, hplain _, fun h => absurd h hactual⟩
  refine hhash.bind fun actual s₄ ⟨h₄, hd, hmem⟩ => .require_bind fun hactual => ?_
  refine Serves.bind (Q := fun _ t => u.Relied s t ∧ (k, digest) ∈ t.hashed)
    (makeDir_serves (fun t ht => ⟨h₄.trans ht, ht.later.hashed _ (hmem hactual)⟩) fun t dirs h => ⟨?_, h.2⟩)
      fun _ s₅ ⟨h₅, hmem₅⟩ => ?_
  · exact h.1.trans ⟨.congr rfl rfl rfl, fun _ => .refl _ _⟩
  rw [hactual] at hd
  refine Serves.bind (Q := fun _ t => u.alone → (blobPath env u.repository digest, content) ∈ t.stored) ?_ fun _ _ h =>
    .pure h
  refine Proc.Relies.tell (.refl u) (fun _ _ _ _ _ ha => nomatch ha) fun t t' ht hinv hgood hf => ?_
  have hname : t.fs.names u.path = some k := u.careful _ _ hgood
  have hmoved : orError (t.fs.names (stagingPath env u.repository u.uploadUUID)) DockerError.uploadInvalid = .ok k :=
    orError_ok.2 hname
  rw [hmoved] at hf
  obtain rfl := Except.ok.inj hf
  have hhome := home_path u hr
  have htarget : ¬Home env (blobPath env u.repository digest) := fun hp => home_ne_blobPath henv hp hr hd rfl
  have hlater : Later t { t.endSession u.repository u.uploadUUID with
      fs := t.fs.rename u.path (blobPath env u.repository digest)
      stored := (blobPath env u.repository digest, t.fs.content k) :: t.stored } :=
    ⟨Nat.le_refl _, fun _ _ => rfl, fun _ => id, fun _ => List.mem_cons_of_mem _⟩
  refine ⟨⟨hinv.sound.rename _ htarget, hinv.hashed, fun r d file hr' hd' hfile => ?_⟩,
    ⟨hlater, fun p hp hne => ?_⟩, fun _ _ halone => ?_⟩
  · change (if blobPath env r d = blobPath env u.repository digest then t.fs.names u.path else
      if blobPath env r d = u.path then none else t.fs.names (blobPath env r d)) = some file at hfile
    split at hfile
    · rename_i hpath
      obtain ⟨-, hclean⟩ := blobPath_injective (henv.plain r hr') (henv.plain _ hr) hd' hd hpath
      obtain rfl := Option.some.inj (hname.symm.trans hfile)
      exact ⟨digest, ht.later.hashed _ hmem₅, hclean.symm⟩
    · split at hfile
      · cases hfile
      · exact hinv.blobs r d file hr' hd' hfile
  · exact .rename t.fs hne fun h => htarget (h ▸ hp)
  · have hfile := (hstaged halone).later halone (h₅.trans ht)
    have hk : k = file := Option.some.inj (hname.symm.trans hfile.name)
    rw [← hfile.content, ← hk]
    exact List.mem_cons_self

end Steps

/-! ### Handlers -/

section Handlers
variable {env : Env} {calculateDigest : List UInt8 → String} {u : Session env} {s : Store} {name : String}
    {content : List UInt8}

attribute [local irreducible] blobPath stagingPath parentDir Index.pathClean parseRepositoryAndImage trimSlash

theorem authorized_serves {P : Store → Prop} (hname : (parseRepositoryAndImage name).1 = u.repository)
    (hP : ∀ t, u.Relied s t → P t) :
    Serves calculateDigest u (authorized env name)
      (fun repository t => repository = u.repository ∧ (env.repos u.repository).isSome = true ∧ P t) s := by
  unfold authorized
  rw [hname]
  cases hrepo : env.repos u.repository with
  | none =>
    have hnone : env.getRepo u.repository = none := by simp [Env.getRepo, hrepo]
    rw [hnone]
    exact .throw _
  | some config =>
    have hsome : env.getRepo u.repository = some { config with name := u.repository } := by simp [Env.getRepo, hrepo]
    rw [hsome]
    exact (Serves.checked hP).bind fun _ t ht => .pure ⟨rfl, rfl, ht⟩

variable (henv : env.Named) (hname : (parseRepositoryAndImage name).1 = u.repository)
include henv hname

theorem handlePatchUpload_serves {body : Body} (hbegun : u.alone → u.Begun content s) :
    Serves calculateDigest u (handlePatchUpload env name u.uploadUUID body) (fun _ t => u.alone →
      u.Begun (content ++ body.bytes) t) s := by
  refine (authorized_serves hname fun t ht halone => (hbegun halone).later halone ht).bind
    fun repository s₁ ⟨hrepo, hr, h₁⟩ => ?_
  subst hrepo
  refine (openFile_serves henv hr .uploadUnknown h₁).bind fun file s₂ ⟨hopened, hstaged⟩ => ?_
  have hsize : Serves calculateDigest u (stagedSize file) (fun _ t => u.Opened file t ∧
    (u.alone → u.Staged file content t))
      s₂ :=
    .look fun t ht => ⟨hopened.later ht, fun halone => (hstaged halone).later halone ht⟩
  refine hsize.bind fun off s₃ ⟨h₃, hstaged₃⟩ => ?_
  have happend : Serves calculateDigest u (if body.bytes ≠ [] then writeStaged file off body else pure ())
      (fun _ t => u.alone → u.Begun (content ++ body.bytes) t) s₃ := by
    split
    · exact (writeStaged_serves henv h₃ hstaged₃).mono fun _ t ht halone => .inr ⟨file, ht.2 halone⟩
    · rename_i hempty
      refine .pure fun halone => .inr ⟨file, ?_⟩
      rw [not_not.1 hempty, List.append_nil]
      exact hstaged₃ halone
  refine happend.attempt.bind fun result s₄ hresult => ?_
  have hclose : Serves calculateDigest u closeStaged (fun _ t => ∀ a, result = .ok a → u.alone →
      u.Begun (content ++ body.bytes) t) s₄ :=
    .look fun t ht a ha halone => (hresult a ha halone).later halone ht
  exact hclose.bind fun _ t ht => .done ht

theorem handlePostUpload_serves (hplain : ∀ content, plainDigest env (calculateDigest content) = true)
    {singleDigest : String} {body : Body} (hsession : u.alone → singleDigest = "") (hbegun : u.alone → u.Begun [] s) :
    Serves calculateDigest u (handlePostUpload env calculateDigest name u.uploadUUID singleDigest body)
      (fun _ t => u.alone → u.Begun [] t) s := by
  refine (authorized_serves hname fun t ht halone => (hbegun halone).later halone ht).bind
    fun repository s₁ ⟨hrepo, hr, h₁⟩ => ?_
  subst hrepo
  refine (stageBlob_serves henv hr h₁).bind fun file s₂ ⟨hopened, hstaged⟩ => ?_
  split
  · rename_i hsingle
    have hshared : ¬u.alone := fun halone => hsingle.1 (hsession halone)
    refine (Serves.attempt (Q := fun _ _ => True) ?_).bind fun result s₃ _ =>
      (discard_serves henv hr).bind fun _ _ _ => .done fun _ _ halone => absurd halone hshared
    refine .require_bind fun _ => ?_
    have hwrite : Serves calculateDigest u (writeStaged file 0 body) (fun _ _ => True) s₂ :=
      (writeStaged_serves henv hopened hstaged).mono fun _ _ _ => trivial
    refine hwrite.bind fun _ _ _ => Serves.bind (Q := fun _ _ => True) (.look fun _ _ => trivial) fun _ _ _ => ?_
    refine Serves.bind (Q := fun _ _ => True) (.checked fun _ _ => trivial) fun _ s₃ _ => ?_
    have hstaged₃ : u.alone → u.Staged file [] s₃ := fun halone => absurd halone hshared
    exact (commitBlob_serves henv hplain hr hstaged₃).bind fun _ _ _ => .checked fun _ _ => trivial
  · have hclose : Serves calculateDigest u closeStaged (fun _ t => u.alone → u.Staged file [] t) s₂ :=
      .look fun t ht halone => (hstaged halone).later halone ht
    refine hclose.bind fun _ s₃ h₃ => issue_serves (fun t ht halone => .inr ⟨file, (h₃ halone).later halone ht⟩)
      fun t sessions h halone => ?_
    rcases h halone with hnone | ⟨file, hfile⟩
    · exact .inl hnone
    · exact .inr ⟨file, ⟨hfile.opened.known, hfile.opened.birth⟩, hfile.name, hfile.content⟩

theorem handlePutUpload_serves (hplain : ∀ content, plainDigest env (calculateDigest content) = true) {digest : String}
    {body : Body} (hbegun : u.alone → u.Begun content s) :
    Serves calculateDigest u (handlePutUpload env calculateDigest name u.uploadUUID digest body)
      (fun _ t => (env.repos u.repository).isSome = true ∧
        (u.alone → (blobPath env u.repository digest, content ++ body.bytes) ∈ t.stored)) s := by
  refine .require_bind fun _ => ?_
  refine (authorized_serves hname fun t ht halone => (hbegun halone).later halone ht).bind
    fun repository s₁ ⟨hrepo, hr, h₁⟩ => ?_
  subst hrepo
  refine (openFile_serves henv hr .uploadUnknown h₁).bind fun file s₂ ⟨hopened, hstaged⟩ => ?_
  have happend : Serves calculateDigest u (writeFinalChunk env u.repository u.uploadUUID file body)
      (fun _ t => u.alone → u.Staged file (content ++ body.bytes) t) s₂ := by
    unfold writeFinalChunk
    split
    · have hsize : Serves calculateDigest u (stagedSize file) (fun _ t => u.Opened file t ∧
          (u.alone → u.Staged file content t)) s₂ :=
        .look fun t ht => ⟨hopened.later ht, fun halone => (hstaged halone).later halone ht⟩
      refine hsize.bind fun off s₃ ⟨h₃, hstaged₃⟩ => ?_
      exact (orDiscard_serves henv hr (writeStaged_serves henv h₃ hstaged₃)).mono fun _ t ht => ht.2
    · rename_i hempty
      refine .pure fun halone => ?_
      rw [not_not.1 hempty, List.append_nil]
      exact hstaged halone
  refine happend.bind fun _ s₃ h₃ => ?_
  have hkeeps : ∀ {t t'}, (u.alone → u.Staged file (content ++ body.bytes) t) → u.Relied t t' →
      u.alone → u.Staged file (content ++ body.bytes) t' := fun h ht halone => (h halone).later halone ht
  refine Serves.bind (Q := fun _ t => u.alone → u.Staged file (content ++ body.bytes) t) (.look fun t ht => hkeeps h₃ ht)
    fun _ s₄ h₄ => ?_
  refine (orDiscard_serves henv hr (stagedDigest_serves fun t ht => hkeeps h₄ ht)).bind fun calculated s₅ h₅ => ?_
  split
  · exact (discard_serves henv hr).bind fun _ _ _ => .throw _
  · refine Serves.bind (Q := fun _ t => u.alone → u.Staged file (content ++ body.bytes) t) (.checked fun t ht =>
      hkeeps h₅ ht) fun _ s₆ h₆ => ?_
    refine (commitBlob_serves henv hplain hr h₆).bind fun _ s₇ h₇ => ?_
    exact .checked fun t ht => ⟨hr, fun halone => ht.later.stored _ (h₇ halone)⟩

theorem handleGetUploadStatus_serves (hshared : ¬u.alone) :
    Serves calculateDigest u (handleGetUploadStatus env name u.uploadUUID) (fun _ _ => True) s := by
  refine (authorized_serves (P := fun _ => True) hname fun _ _ => trivial).bind fun repository s₁ ⟨hrepo, hr, _⟩ => ?_
  subst hrepo
  have hbegun : u.alone → u.Begun [] s₁ := fun halone => absurd halone hshared
  refine (openFile_serves henv hr .uploadUnknown hbegun).bind fun file s₂ _ => ?_
  exact Serves.bind (Q := fun _ _ => True) (.look fun _ _ => trivial) fun _ _ _ => .look fun _ _ => trivial

theorem handleDeleteUpload_serves (hshared : ¬u.alone) :
    Serves calculateDigest u (handleDeleteUpload env name u.uploadUUID) (fun _ _ => True) s := by
  refine (authorized_serves (P := fun _ => True) hname fun _ _ => trivial).bind fun repository s₁ ⟨hrepo, hr, _⟩ => ?_
  subst hrepo
  have hbegun : u.alone → u.Begun [] s₁ := fun halone => absurd halone hshared
  refine (openFile_serves henv hr .uploadUnknown hbegun).attempt.bind fun result s₂ _ => ?_
  cases result with
  | ok file => exact discard_serves henv hr
  | error e => exact .pure trivial

omit hname in
theorem copyChunks_serves {file : Nat} {complete : Bool} (hshared : ¬u.alone) (chunks : List Body) :
    ∀ {off : Nat} {s : Store}, u.Opened file s → Serves calculateDigest u (copyChunks file complete off chunks)
      (fun _ _ => True) s := by
  induction chunks with
  | nil =>
    intro off s _
    unfold copyChunks
    split
    · exact .pure trivial
    · exact .throw _
  | cons chunk chunks ih =>
    intro off s hopened
    have hstaged : u.alone → u.Staged file [] s := fun halone => absurd halone hshared
    exact (writeStaged_serves henv hopened hstaged).bind fun _ t ht => ih ht.1

theorem handleGetBlob_serves (hplain : ∀ content, plainDigest env (calculateDigest content) = true) (hshared : ¬u.alone)
    {digest : String} {chunks : List Body} {complete : Bool} :
    Serves calculateDigest u (handleGetBlob env calculateDigest name digest u.uploadUUID chunks complete)
      (fun _ _ => True) s := by
  refine (authorized_serves (P := fun _ => True) hname fun _ _ => trivial).bind fun repository s₁ ⟨hrepo, hr, _⟩ => ?_
  subst hrepo
  refine Serves.bind (Q := fun _ _ => True) (.checked fun _ _ => trivial) fun _ s₂ _ => ?_
  have hbegun : u.alone → u.Begun [] s₂ := fun halone => absurd halone hshared
  refine (stageBlob_serves henv hr hbegun).attempt.bind fun result s₃ h₃ => ?_
  cases result with
  | error e => exact .pure trivial
  | ok file =>
    refine (copyChunks_serves henv hshared chunks (h₃ file rfl).1).attempt.bind fun result s₄ _ =>
      Serves.bind (Q := fun _ _ => True) (.look fun _ _ => trivial) fun _ s₅ _ => ?_
    cases result with
    | ok _ =>
      have hstaged : u.alone → u.Staged file [] s₅ := fun halone => absurd halone hshared
      exact (commitBlob_serves henv hplain hr hstaged).attempt.bind fun _ _ _ => .pure trivial
    | error e => exact (discard_serves henv hr).bind fun _ _ _ => .throw e

theorem patches_serves (bodies : List Body) : ∀ {content : List UInt8} {s : Store}, (u.alone → u.Begun content s) →
    Serves calculateDigest u (patches env name u.uploadUUID bodies)
      (fun _ t => u.alone → u.Begun (content ++ bodies.flatMap Body.bytes) t) s := by
  induction bodies with
  | nil =>
    intro content s hbegun
    exact .pure fun halone => by simpa using hbegun halone
  | cons body bodies ih =>
    intro content s hbegun
    refine (handlePatchUpload_serves henv hname hbegun).bind fun _ t ht => (ih ht).mono fun _ t' ht' halone => ?_
    rw [List.flatMap_cons, ← List.append_assoc]
    exact ht' halone

theorem upload_serves (hplain : ∀ content, plainDigest env (calculateDigest content) = true) {digest : String}
    {bodies : List Body} {last : Body} (hbegun : u.alone → u.Begun [] s) :
    Serves calculateDigest u (upload env calculateDigest name u.uploadUUID digest bodies last)
      (fun _ t => (env.repos u.repository).isSome = true ∧
        (u.alone → (blobPath env u.repository digest, bodies.flatMap Body.bytes ++ last.bytes) ∈ t.stored)) s := by
  refine (handlePostUpload_serves henv hname hplain (fun _ => rfl) hbegun).bind fun _ s₁ h₁ => ?_
  refine (patches_serves henv hname bodies h₁).bind fun _ s₂ h₂ => ?_
  exact handlePutUpload_serves henv hname hplain h₂

end Handlers

/-! ### Runs -/

/-- The repository and the upload of a request. -/
def Request.session : Request → Option (String × String)
  | .post name id _ _ | .patch name id _ | .put name id _ _ | .status name id | .cancel name id | .getBlob name _ id _ _
  | .upload name id _ _ _ => some ((parseRepositoryAndImage name).1, id)
  | .deleteBlob .. => none

/-- The upload, or the digest, is the name of a file. -/
def Request.plain (env : Env) : Request → Bool
  | .post _ id _ _ | .patch _ id _ | .put _ id _ _ | .status _ id | .cancel _ id | .getBlob _ _ id _ _ | .upload _ id _ _
    _ => plainID id
  | .deleteBlob _ digest => plainDigest env digest

def Request.isUpload : Request → Bool
  | .upload .. => true
  | _ => false

/-- The upload of a client is a new one. -/
def Request.Fresh (env : Env) (s : Store) : Request → Prop
  | .upload name id _ _ _ => s.fs.names (stagingPath env (parseRepositoryAndImage name).1 id) = none
  | _ => True

/-- Nobody else has the upload of a client. -/
def Apart (req req' : Request) : Prop := req.isUpload = true ∨ req'.isUpload = true → req.session ≠ req'.session

/-- The pieces of a client are stored one after the other. -/
def Request.Stored (env : Env) (s : Store) : Request → Prop
  | .upload name _ digest bodies last =>
    (blobPath env (parseRepositoryAndImage name).1 digest, bodies.flatMap Body.bytes ++ last.bytes) ∈ s.stored
  | _ => True

structure Request.Relied (env : Env) (alone : Prop) (req : Request) (s s' : Store) : Prop where
  later : Later s s'
  same : alone → ∀ r id, req.session = some (r, id) → (env.repos r).isSome = true → plainID id = true →
    SameAt (stagingPath env r id) s.fs s'.fs

structure Request.Leaves (env : Env) (req : Request) (s s' : Store) : Prop where
  later : Later s s'
  same : ∀ p, Home env p → (∀ r id, req.session = some (r, id) → (env.repos r).isSome = true →
    p ≠ stagingPath env r id) → SameAt p s.fs s'.fs

section Runs
variable {env : Env} {calculateDigest : List UInt8 → String} {s : Store} {req : Request}

attribute [local irreducible] blobPath stagingPath parentDir Index.pathClean parseRepositoryAndImage trimSlash

theorem handleDeleteBlob_relies (henv : env.Named) {good : FileCall → Store → Prop} (name : String) {digest : String}
    (hd : plainDigest env digest = true) :
    (handleDeleteBlob env name digest).Relies (fun _ _ => True) (Request.Leaves env (.deleteBlob name digest))
      (Addressed env calculateDigest) good (fun _ _ => True) s := by
  have hrefl : ∀ a, Request.Leaves env (.deleteBlob name digest) a a := fun a => ⟨.refl a, fun p _ _ => .refl p _⟩
  have hauth : (authorized env name).Relies (fun _ _ => True) (Request.Leaves env (.deleteBlob name digest))
    (Addressed env calculateDigest) good (fun r _ => ∀ a, r = .ok a → (env.repos a).isSome = true) s := by
    unfold authorized
    cases hrepo : env.repos (parseRepositoryAndImage name).1 with
    | none =>
      have hnone : env.getRepo (parseRepositoryAndImage name).1 = none := by simp [Env.getRepo, hrepo]
      rw [hnone]
      exact fun a ha => by cases ha
    | some config =>
      have hsome : env.getRepo (parseRepositoryAndImage name).1 = some { config with name :=
          (parseRepositoryAndImage name).1 } := by
        simp [Env.getRepo, hrepo]
      rw [hsome]
      show ((checked .denied).bind fun _ => .done (.ok (parseRepositoryAndImage name).1)).Relies _ _ _ _ _ s
      have hchecked : (checked .denied).Relies (fun _ _ => True) (Request.Leaves env (.deleteBlob name digest))
        (Addressed env calculateDigest)
          good (fun _ _ => True) s := .ask hrefl (fun _ _ _ _ => trivial) fun _ _ _ _ _ => trivial
      refine hchecked.bind (fun _ _ _ a ha => ?_) fun _ _ _ a ha => by cases ha
      rw [← Except.ok.inj ha, hrepo]
      rfl
  refine Proc.Relies.bind hauth (fun repository s₁ hr => ?_) fun _ _ _ => trivial
  refine Proc.Relies.bind_any (.ask hrefl (fun _ _ _ _ => trivial) fun _ _ _ _ _ => trivial) fun _ s₂ => ?_
  refine .tell hrefl (fun _ _ _ _ => trivial) fun t t' _ hinv _ hf => ?_
  obtain rfl := Except.ok.inj hf
  have hblob : ∀ p, Home env p → p ≠ blobPath env repository digest := fun p hp =>
    home_ne_blobPath henv hp (hr repository rfl) hd
  refine ⟨hinv.sessions henv rfl (hinv.sound.remove _) (fun p _ => ?_) (Nat.le_refl _) fun _ _ _ => rfl,
    ⟨⟨Nat.le_refl _, fun _ _ => rfl, fun _ => id, fun _ => id⟩, fun p hp _ => .remove t.fs (hblob p hp)⟩, trivial⟩
  show (if p = _ then none else t.fs.names p) = _ ∨ (if p = _ then none else t.fs.names p) = none
  split
  · exact .inr rfl
  · exact .inl rfl

theorem plainID_of_session {r id : String} (hreq : req.plain env = true) (h : req.session = some (r, id)) :
    plainID id = true := by
  have hid : ∀ {r' id' : String}, some (r', id') = some (r, id) → id' = id := fun h => (Prod.mk.inj (Option.some.inj h)).2
  cases req with
  | deleteBlob name digest => cases h
  | _ =>
    rw [← hid h]
    exact hreq

theorem handle_serves (henv : env.Named) (hplain : ∀ content, plainDigest env (calculateDigest content) = true)
    (u : Session env) (hsession : req.session = some (u.repository, u.uploadUUID))
    (halone : u.alone → req.isUpload = true ∧ req.Fresh env s) :
    Serves calculateDigest u (handle env calculateDigest req)
      (fun _ t => req.isUpload = true → (env.repos u.repository).isSome = true ∧ (u.alone → req.Stored env t)) s := by
  have hshared : req.isUpload = false → ¬u.alone := fun hreq h => by
    rw [(halone h).1] at hreq
    cases hreq
  have hbegun : req.isUpload = false → u.alone → u.Begun [] s := fun hreq h => absurd h (hshared hreq)
  cases req with
  | post name id singleDigest body =>
    obtain ⟨hname, rfl⟩ := Prod.mk.inj (Option.some.inj hsession)
    exact (handlePostUpload_serves henv hname hplain (fun h => absurd h (hshared rfl)) (hbegun rfl)).mono fun _ _ _ h =>
      nomatch h
  | patch name id body =>
    obtain ⟨hname, rfl⟩ := Prod.mk.inj (Option.some.inj hsession)
    exact (handlePatchUpload_serves henv hname (hbegun rfl)).mono fun _ _ _ h => nomatch h
  | put name id digest body =>
    obtain ⟨hname, rfl⟩ := Prod.mk.inj (Option.some.inj hsession)
    exact (handlePutUpload_serves henv hname hplain (hbegun rfl)).mono fun _ _ _ h => nomatch h
  | status name id =>
    obtain ⟨hname, rfl⟩ := Prod.mk.inj (Option.some.inj hsession)
    exact (handleGetUploadStatus_serves henv hname (hshared rfl)).mono fun _ _ _ h => nomatch h
  | cancel name id =>
    obtain ⟨hname, rfl⟩ := Prod.mk.inj (Option.some.inj hsession)
    exact (handleDeleteUpload_serves henv hname (hshared rfl)).mono fun _ _ _ h => nomatch h
  | getBlob name digest id chunks complete =>
    obtain ⟨hname, rfl⟩ := Prod.mk.inj (Option.some.inj hsession)
    exact (handleGetBlob_serves henv hname hplain (hshared rfl)).mono fun _ _ _ h => nomatch h
  | deleteBlob name digest => cases hsession
  | upload name id digest bodies last =>
    obtain ⟨hname, rfl⟩ := Prod.mk.inj (Option.some.inj hsession)
    have hfresh : u.alone → u.Begun [] s := by
      intro h
      have hnone : s.fs.names (stagingPath env (parseRepositoryAndImage name).1 u.uploadUUID) = none := (halone h).2
      rw [hname] at hnone
      exact .inl ⟨hnone, rfl⟩
    refine (upload_serves henv hname hplain hfresh).mono fun _ t ht _ => ⟨ht.1, fun h => ?_⟩
    show (blobPath env (parseRepositoryAndImage name).1 digest, _) ∈ t.stored
    rw [hname]
    exact ht.2 h

theorem handle_unknown (calculateDigest : List UInt8 → String) {r id : String} (h : req.session = some (r, id))
    (hr : env.repos r = none) :
    ∃ e, handle env calculateDigest req = .done (.error e) ∧
      (e = .nameUnknown ∨ e = .digestInvalid ∧ ∃ name id body, req = .put name id "" body) := by
  have hrepo : ∀ {name id' : String}, some ((parseRepositoryAndImage name).1, id') = some (r, id) →
      authorized env name = Proc.throw .nameUnknown := by
    intro name id' h
    have hname := (Prod.mk.inj (Option.some.inj h)).1
    unfold authorized Env.getRepo
    rw [hname, hr]
    rfl
  cases req with
  | deleteBlob name digest => cases h
  | put name id' digest body =>
    by_cases hd : digest = ""
    · subst hd
      exact ⟨.digestInvalid, rfl, .inr ⟨rfl, name, id', body, rfl⟩⟩
    · refine ⟨.nameUnknown, ?_, .inl rfl⟩
      show handlePutUpload env calculateDigest name id' digest body = _
      unfold handlePutUpload
      rw [hrepo h]
      simp [require, hd, Proc.ofExcept, Proc.throw, Proc.bind]
  | _ =>
    refine ⟨.nameUnknown, ?_, .inl rfl⟩
    simp only [handle, upload, handlePostUpload, handlePatchUpload, handleGetUploadStatus, handleDeleteUpload, handleGetBlob]
    rw [hrepo h]
    rfl

theorem handle_relies (henv : env.Named) (hplain : ∀ content, plainDigest env (calculateDigest content) = true)
    (alone : Prop) {good : FileCall → Store → Prop} (hcareful : ∀ call s, good call s → Careful call s)
    (hend : alone → ∀ call s, good call s → AtEnd call s)
    (hreq : req.plain env = true) (halone : alone → req.isUpload = true ∧ req.Fresh env s) :
    (handle env calculateDigest req).Relies (req.Relied env alone) (req.Leaves env) (Addressed env calculateDigest) good
      (fun r t => r = .ok () → alone → req.Stored env t) s := by
  cases hsession : req.session with
  | none =>
    cases req with
    | deleteBlob name digest =>
      refine ((handleDeleteBlob_relies henv name hreq).mono fun _ _ _ _ _ => trivial).weaken (fun _ _ _ => trivial)
        (fun _ _ h => h) fun _ => .rfl
    | _ => exact nomatch hsession
  | some p =>
    obtain ⟨r, id⟩ := p
    cases hrepo : env.repos r with
    | none =>
      obtain ⟨e, he, -⟩ := handle_unknown calculateDigest hsession hrepo
      rw [he]
      exact fun h => nomatch h
    | some config =>
      have hr : (env.repos r).isSome = true := by rw [hrepo]; rfl
      let u : Session env :=
        ⟨r, id, alone, good, plainID_of_session hreq hsession, hcareful, hend⟩
      have hserves := handle_serves (s := s) henv hplain u hsession halone
      refine (Proc.Relies.weaken hserves (fun a b h => ⟨h.later, fun hu => h.same hu r id hsession hr u.plain⟩)
        (fun a b h => ⟨h.later, fun p hp hne => h.same p hp (hne r id hsession hr)⟩) fun _ => .rfl).mono
          fun r' t ht hr' h =>
          ?_
      exact (ht () hr' (halone h).1).2 h

/-- In every run in which no file is written that was hashed, and no other file is moved, the blobs have the contents of their
digests; and if each piece of an upload is written at the end of its file, they are stored as they were sent. -/
theorem blobs_addressed {env : Env} (henv : env.Named) {calculateDigest : List UInt8 → String}
    (hplain : ∀ content, plainDigest env (calculateDigest content) = true) {s₀ : Store}
    (hs : Addressed env calculateDigest s₀) :
    (∀ sys, Reach (fun _ => false) (handle env calculateDigest)
        (System.Orderly (fun req => req.plain env = true) (fun _ _ => True) Careful) ⟨s₀, []⟩ sys →
      ∀ r digest file, (env.repos r).isSome = true → plainDigest env digest = true →
        sys.shared.fs.names (blobPath env r digest) = some file →
        cleanDigestHash env (calculateDigest (sys.shared.fs.content file)) = cleanDigestHash env digest) ∧
    ∀ sys, Reach (fun _ => false) (handle env calculateDigest)
        (System.Ordered (fun req s => req.plain env = true ∧ req.Fresh env s) Apart
          (fun call s => Careful call s ∧ AtEnd call s) fun _ => True) ⟨s₀, []⟩ sys →
      ∀ req, (req, .done (.ok ())) ∈ sys.active → req.Stored env sys.shared := by
  constructor
  · intro sys hreach r digest file hr hd hname
    have hkept := Reach.relies (fun _ a b => Later a b) (Addressed env calculateDigest) (fun _ _ => True)
      (fun req : Request => req.plain env = true)
      (fun _ _ => True) (fun _ _ h => h) (fun _ _ _ _ h h' => h.trans h') (fun _ a => .refl a) (fun req s hreq _ => ?_)
        hs hreach
    · obtain ⟨digest', hmem, hclean⟩ := hkept.1.blobs r digest file hr hd hname
      rw [(hkept.1.hashed file digest' hmem).2, hclean]
    · have hrelies := handle_relies (s := s) henv hplain False (fun _ _ h => h) False.elim hreq False.elim
      exact (hrelies.mono fun _ _ _ => trivial).weaken (fun a b h => ⟨h, False.elim⟩) (fun a b h req' _ _ => h.later)
        fun _ => .rfl
  · intro sys hreach req hdone
    have hkept := Reach.ordered (fun req a b => req.Relied env (req.isUpload = true) a b) (Addressed env calculateDigest)
      (fun _ => True)
      (fun call s => Careful call s ∧ AtEnd call s) (fun req r t => r = .ok () → req.isUpload = true → req.Stored env t)
      (fun req s => req.plain env = true ∧ req.Fresh env s) Apart (fun _ _ h hor => (h hor.symm).symm)
      (fun _ _ _ _ h h' => ⟨h.later.trans h'.later, fun hup r id hs hr hid =>
        (h.same hup r id hs hr hid).trans (h'.same hup r id hs hr hid)⟩)
      (fun _ a => ⟨.refl a, fun _ _ _ _ _ _ => .refl _ _⟩) (fun req r a b hab h hok hup => ?_)
        (fun req s hreq _ _ => ?_) hs
        trivial hreach
    · cases req with
      | upload name id digest bodies last => exact hkept.2 _ _ hdone rfl rfl
      | _ => trivial
    · have hstored := h hok hup
      cases req with
      | upload name id digest bodies last => exact hab.later.stored _ hstored
      | _ => trivial
    · have hrelies : (handle env calculateDigest req).Relies (req.Relied env (req.isUpload = true)) (req.Leaves env)
          (Addressed env calculateDigest) (fun call s => Careful call s ∧ AtEnd call s)
          (fun r t => r = .ok () → req.isUpload = true → req.Stored env t) s :=
        handle_relies henv hplain _ (fun _ _ h => h.1) (fun _ _ _ h => h.2) hreq.1 fun hup => ⟨hup, hreq.2⟩
      refine hrelies.weaken (fun a b h => h.1) (fun a b h req' hapart => ⟨h.later, fun hup r id hs hr hid => ?_⟩) fun _ =>
        forall_const _
      refine h.same _ ⟨r, id, hr, hid, rfl⟩ fun r' id' hs' hr' heq => hapart (.inr hup) ?_
      have hid' := plainID_of_session hreq.1 hs'
      obtain ⟨rfl, rfl⟩ := stagingPath_injective (henv.plain r hr) (henv.plain r' hr') hid hid' heq
      exact hs'.trans hs.symm

/-! #### An upload in two pieces, and a piece that comes late -/

/-- `CalculateDigest` of the contents that the runs here have. -/
def letterDigest (content : List UInt8) : String :=
  if content = [] then "sha256:e3b0c44298fc1c149afbf4c8996fb92427ae41e4649b934ca495991b7852b855"
  else if content = [97] then "sha256:ca978112ca1bbdcafac231b39a23dc4da786eff8147c4e72b9807785afee48bb"
  else "sha256:fb8e20fc2e4c3f248c60c39bd652f3c1347298bb977b8b4d5903b85055620603"

theorem letterDigest_plain (content : List UInt8) : plainDigest layerEnv (letterDigest content) = true := by
  unfold letterDigest
  split
  · decide +kernel
  · split <;> decide +kernel

theorem addressed_empty (env : Env) (calculateDigest : List UInt8 → String) : Addressed env calculateDigest Store.empty :=
  ⟨⟨nofun, nofun⟩, nofun, nofun⟩

def carefulNow : FileCall → Store → Bool
  | .other, _ => true
  | .writeAt file off, s => (s.hashed.all fun x => x.1 ≠ file) && off = (s.fs.content file).length
  | .rename path file, s => s.fs.names path = some file

theorem careful_of_carefulNow {call : FileCall} {s : Store} (h : carefulNow call s = true) :
    Careful call s ∧ AtEnd call s := by
  cases call with
  | other => exact ⟨trivial, trivial⟩
  | rename path file =>
    simp only [carefulNow, decide_eq_true_eq] at h
    exact ⟨h, trivial⟩
  | writeAt file off =>
    simp only [carefulNow, Bool.and_eq_true, List.all_eq_true, decide_eq_true_eq] at h
    exact ⟨fun digest hmem => h.1 _ hmem rfl, h.2⟩

/-- `a` by a `PATCH`, and `b` by the `PUT`. -/
def uploadAB : Request :=
  .upload "app/open" "1" "sha256:fb8e20fc2e4c3f248c60c39bd652f3c1347298bb977b8b4d5903b85055620603" [⟨[97], 0⟩]
    ⟨[98], 0⟩

def uploaded (sys : System Request Store FileCall DockerError Unit) : Bool :=
  match sys.active with
  | [(req, .done (.ok ()))] => req = uploadAB
  | _ => false

theorem mem_of_uploaded {sys : System Request Store FileCall DockerError Unit} (h : uploaded sys = true) :
    (uploadAB, .done (.ok ())) ∈ sys.active := by
  unfold uploaded at h
  split at h
  · rename_i req hactive
    rw [hactive, of_decide_eq_true h]
    exact List.mem_singleton_self _
  · cases h

theorem blobs_addressed_upload :
    ∃ sys, Reach (fun _ => false) (handle layerEnv letterDigest)
        (System.Ordered (fun req s => req.plain layerEnv = true ∧ req.Fresh layerEnv s) Apart
          (fun call s => Careful call s ∧
          AtEnd call s)
          fun _ => True) ⟨Store.empty, []⟩ sys ∧ sys.shared.stored.length = 1 ∧
            uploadAB.Stored layerEnv sys.shared := by
  have hrun : ((System.goodRun (fun _ => false) (handle layerEnv letterDigest) carefulNow
      ⟨Store.empty, [(uploadAB, handle layerEnv letterDigest uploadAB)]⟩
      ((List.replicate 25 0).map fun n => .advance n false)).map fun sys => (sys.shared.stored.length, uploaded sys)) =
        some (1, true) := by decide +kernel
  obtain ⟨sys, hsys, hmap⟩ := Option.map_eq_some_iff.1 hrun
  obtain ⟨hlength, hup⟩ := Prod.mk.inj hmap
  have hadvance : ∀ (sys : System Request Store FileCall DockerError Unit) (n : Nat) (fail : Bool),
      sys.goodNow carefulNow (.advance n fail) = true →
      System.Ordered (fun req s => req.plain layerEnv = true ∧ req.Fresh layerEnv s) Apart (fun call s => Careful call s ∧
        AtEnd call s) (fun _ => True) sys (.advance n fail) := by
    intro sys n fail h i label act next hn
    simp only [System.goodNow, hn] at h
    exact ⟨careful_of_carefulNow h, trivial⟩
  have hreach : Reach (fun _ => false) (handle layerEnv letterDigest)
      (System.Ordered (fun req s => req.plain layerEnv = true ∧ req.Fresh layerEnv s) Apart
        (fun call s => Careful call s ∧
        AtEnd call s)
        fun _ => True) ⟨Store.empty, []⟩ sys :=
    .head ⟨.start uploadAB, ⟨⟨by decide, rfl⟩, fun t ht => absurd ht List.not_mem_nil⟩, rfl⟩
      (Reach.of_goodAdvances hadvance hsys)
  exact ⟨sys, hreach, hlength,
    (blobs_addressed layerEnv_named letterDigest_plain (addressed_empty _ _)).2 sys hreach uploadAB (mem_of_uploaded hup)⟩

/-- A `PATCH` has the staged file open when a `PUT` of nothing moves it, and writes then. -/
def latePatch : List (Event Request) :=
  .start (.post "app/open" "1" "" ⟨[], 0⟩) :: List.replicate 6 (.advance 0 false) ++
  .start (.patch "app/open" "1" ⟨[97], 0⟩) :: .start (.put "app/open" "1" (letterDigest []) ⟨[], 0⟩) ::
  List.replicate 3 (.advance 0 false) ++ List.replicate 12 (.advance 1 false) ++ [.advance 0 false]

/-- The blob of nothing has a byte then. -/
theorem blob_changed :
    ¬∀ (env : Env) (calculateDigest : List UInt8 → String) sys, env.Named →
      (∀ content, plainDigest env (calculateDigest content) = true) →
      Reach (fun _ => false) (handle env calculateDigest) (System.Orderly (fun req => req.plain env = true) (fun _ _ => True)
        fun _ _ => True) ⟨Store.empty, []⟩ sys →
      ∀ r digest file, (env.repos r).isSome = true → plainDigest env digest = true →
        sys.shared.fs.names (blobPath env r digest) = some file →
        cleanDigestHash env (calculateDigest (sys.shared.fs.content file)) = cleanDigestHash env digest := by
  intro hall
  have hrun : ((System.run (fun _ => false) (handle layerEnv letterDigest) ⟨Store.empty, []⟩ latePatch).map fun sys =>
      (sys.shared.fs.names (blobPath layerEnv "app" (letterDigest [])), sys.shared.fs.content 0)) =
        some (some 0, [97]) := by decide +kernel
  obtain ⟨sys, hsys, hmap⟩ := Option.map_eq_some_iff.1 hrun
  obtain ⟨hname, hcontent⟩ := Prod.mk.inj hmap
  have hstarted : ∀ req, .start req ∈ latePatch → req.plain layerEnv = true := by
    have hplain : (latePatch.all fun e => match e with
      | .start req => req.plain layerEnv
      | .advance .. => true) = true := by decide +kernel
    exact fun req hreq => List.all_eq_true.1 hplain _ hreq
  have haddressed := hall layerEnv letterDigest sys layerEnv_named letterDigest_plain (Reach.of_run hsys _ hstarted) "app"
    (letterDigest []) 0
    rfl (letterDigest_plain _) hname
  rw [hcontent] at haddressed
  exact absurd haddressed (by decide +kernel)

end Runs

end Renop.DockerStore
