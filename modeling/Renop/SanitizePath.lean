import Renop.CleanPath

/-!
# Sanitized paths

`SanitizePath` splits a path at its slashes, decodes each part once, and joins what it accepts. The parts it joins are fixed
by a second run, and none of them leads out of the directory it is joined to.
-/

namespace Renop.Path

open Index

def isHex (c : Char) : Bool := ('0' ≤ c && c ≤ '9') || ('a' ≤ c && c ≤ 'f') || ('A' ≤ c && c ≤ 'F')

def unhex (c : Char) : UInt8 :=
  if '0' ≤ c && c ≤ '9' then c.toUInt8 - '0'.toUInt8
  else if 'a' ≤ c && c ≤ 'f' then c.toUInt8 - 'a'.toUInt8 + 10
  else c.toUInt8 - 'A'.toUInt8 + 10

/-- `url.PathUnescape`. The bytes need not be valid UTF-8. -/
def pathUnescape : List Char → Option (List UInt8)
  | [] => some []
  | '%' :: hi :: lo :: rest =>
    if isHex hi && isHex lo then (pathUnescape rest).map fun bytes => (unhex hi <<< 4 ||| unhex lo) :: bytes
    else none
  | c :: rest =>
    if c = '%' then none
    else (pathUnescape rest).map fun bytes => String.utf8EncodeChar c ++ bytes

/-- The characters of valid UTF-8. -/
def validString (bytes : List UInt8) : Option (List Char) := (String.fromUTF8? bytes.toByteArray).map String.toList

def reservedDeviceNames : List String :=
  ["con", "prn", "aux", "nul",
   "com1", "com2", "com3", "com4", "com5", "com6", "com7", "com8", "com9",
   "lpt1", "lpt2", "lpt3", "lpt4", "lpt5", "lpt6", "lpt7", "lpt8", "lpt9"]

/-- The letters outside ASCII whose lower case is in ASCII give `i` and `k`, which are in none of the names. -/
def isReservedDeviceName (part : List Char) : Bool :=
  reservedDeviceNames.contains (String.ofList ((part.takeWhile (· ≠ '.')).map Char.toLower))

def isControl (r : Char) : Bool := r.val ≤ 0x1f || (0x7f ≤ r.val && r.val ≤ 0x9f)

def forbidden : List Char := ['\\', ':', '%', '*', '?', '#', '"', '<', '>', '|']

def skipped (part : List Char) : Bool := part = [] || part = ['.']

/-- A decoded part that is refused. -/
def refused (part : List Char) : Bool :=
  part = ['.', '.'] || part.contains '/' || part.contains '\\' || part.getLast? = some ' ' || part.getLast? = some '.' ||
    isReservedDeviceName part || part.any fun r => isControl r || forbidden.contains r

def decodePart (part : List Char) : Option (List Char) := (pathUnescape part).bind validString

/-- The loop over the parts. -/
def sanitizeParts : List (List Char) → List Char → Option (List Char)
  | [], builder => some builder
  | part :: rest, builder =>
    if skipped part then sanitizeParts rest builder
    else
      match decodePart part with
      | none => none
      | some decoded =>
        if skipped decoded then sanitizeParts rest builder
        else if refused decoded then none
        else sanitizeParts rest (if builder ≠ [] then builder ++ '/' :: decoded else decoded)

/-- A trailing slash gives one more part here, an empty one. -/
def sanitizePath (path : ByteArray) : Option String :=
  if path.size = 0 then some ""
  else
    match String.fromUTF8? path with
    | none => none
    | some s => (sanitizeParts (s.toList.splitOn '/') []).map String.ofList

/-- `filepath.Join` of two elements. -/
def filepathJoin (root p : String) : String :=
  if root ≠ "" then pathClean (root ++ "/" ++ p)
  else if p ≠ "" then pathClean p
  else ""

/-! ### Decoding -/

theorem pathUnescape_plain {part : List Char} (h : '%' ∉ part) :
    pathUnescape part = some (part.flatMap String.utf8EncodeChar) := by
  induction part with
  | nil => rfl
  | cons c rest ih =>
    have hc : c ≠ '%' := fun hc => h (by simp [hc])
    have hrest : '%' ∉ rest := fun hr => h (List.mem_cons_of_mem _ hr)
    rw [pathUnescape.eq_3 _ _ (by rintro _ _ _ rfl; exact absurd rfl hc), if_neg hc, ih hrest]
    simp

theorem fromUTF8?_toByteArray (s : String) : String.fromUTF8? s.toByteArray = some s := by
  unfold String.fromUTF8?
  rw [dif_pos s.isValidUTF8]
  rfl

theorem validString_encode (cs : List Char) : validString (cs.flatMap String.utf8EncodeChar) = some cs := by
  have hbytes : (cs.flatMap String.utf8EncodeChar).toByteArray = (String.ofList cs).toByteArray := by
    rw [String.toByteArray_ofList]
    rfl
  rw [validString, hbytes, fromUTF8?_toByteArray, Option.map_some, String.toList_ofList]

theorem decodePart_plain {part : List Char} (h : '%' ∉ part) : decodePart part = some part := by
  rw [decodePart, pathUnescape_plain h]
  exact validString_encode part
/-! ### The loop -/

/-- The parts that are not skipped. -/
def kept (parts : List (List Char)) : List (List Char) := parts.filter fun part => !skipped part

def addPart (builder part : List Char) : List Char := if builder ≠ [] then builder ++ '/' :: part else part

theorem kept_cons_skipped {part : List Char} (h : skipped part = true) (parts : List (List Char)) :
    kept (part :: parts) = kept parts := by
  simp [kept, h]

theorem kept_cons {part : List Char} (h : skipped part = false) (parts : List (List Char)) :
    kept (part :: parts) = part :: kept parts := by
  simp [kept, h]

/-- Every part is decoded once. The decoded parts that are not skipped are joined, unless one of them is refused. -/
theorem sanitizeParts_ok {parts : List (List Char)} {builder r : List Char} :
    sanitizeParts parts builder = some r ↔
      ∃ decoded, (kept parts).mapM decodePart = some decoded ∧ (∀ part ∈ kept decoded, refused part = false) ∧
        r = (kept decoded).foldl addPart builder := by
  induction parts generalizing builder with
  | nil => simp [sanitizeParts.eq_1, kept, @eq_comm _ r]
  | cons part parts ih =>
    unfold sanitizeParts
    cases hpart : skipped part with
    | true =>
      rw [if_pos rfl, kept_cons_skipped hpart]
      exact ih
    | false =>
      rw [if_neg Bool.false_ne_true, kept_cons hpart]
      cases hdec : decodePart part with
      | none => simp [hdec]
      | some dec =>
        have hmap : ∀ {P : List (List Char) → Prop},
            (∃ decoded, (part :: kept parts).mapM decodePart = some decoded ∧ P decoded) ↔
              ∃ rest, (kept parts).mapM decodePart = some rest ∧ P (dec :: rest) := by
          intro P
          simp only [List.mapM_cons, hdec, Option.bind_eq_bind, Option.bind_some, Option.pure_def, Option.bind_eq_some_iff,
            Option.some.injEq]
          constructor
          · rintro ⟨_, ⟨rest, hrest, rfl⟩, hP⟩
            exact ⟨rest, hrest, hP⟩
          · rintro ⟨rest, hrest, hP⟩
            exact ⟨_, ⟨rest, hrest, rfl⟩, hP⟩
        rw [hmap]
        cases hskip : skipped dec with
        | true =>
          simp only [hskip, if_true, kept_cons_skipped hskip]
          exact ih
        | false =>
          simp only [hskip, Bool.false_eq_true, if_false, kept_cons hskip, List.forall_mem_cons, List.foldl_cons]
          cases href : refused dec with
          | true => simp
          | false =>
            simp only [Bool.false_eq_true, if_false, true_and]
            exact ih

theorem foldl_addPart {segs : List (List Char)} (h : Segments segs) {builder : List Char} (hb : builder ≠ []) :
    segs.foldl addPart builder = List.intercalate ['/'] (builder :: segs) := by
  induction segs generalizing builder with
  | nil => simp
  | cons seg segs ih =>
    rw [List.foldl_cons, addPart, if_pos hb, ih (fun s hs => h s (List.mem_cons_of_mem _ hs)) (by simp)]
    rcases segs with _ | ⟨s, segs⟩
    · simp [List.intercalate]
    · simp [List.intercalate_cons_cons]

theorem foldl_addPart_nil {segs : List (List Char)} (h : Segments segs) :
    segs.foldl addPart [] = List.intercalate ['/'] segs := by
  rcases segs with _ | ⟨seg, segs⟩
  · rfl
  · exact foldl_addPart (fun s hs => h s (List.mem_cons_of_mem _ hs)) (h seg List.mem_cons_self).1

/-- A part that is joined. -/
structure SafePart (part : List Char) : Prop where
  nonempty : part ≠ []
  noAlias : part ≠ ['.'] ∧ part ≠ ['.', '.']
  chars : ∀ c ∈ part, isControl c = false ∧ c ≠ '/' ∧ c ∉ forbidden
  noEnd : part.getLast? ≠ some ' ' ∧ part.getLast? ≠ some '.'
  noDevice : isReservedDeviceName part = false

theorem safePart_iff {part : List Char} : SafePart part ↔ skipped part = false ∧ refused part = false := by
  constructor
  · intro h
    have hslash : '/' ∉ part := fun hmem => (h.chars _ hmem).2.1 rfl
    have hback : '\\' ∉ part := fun hmem => (h.chars _ hmem).2.2 (by decide)
    refine ⟨by simp [skipped, h.nonempty, h.noAlias.1], ?_⟩
    simp only [refused, h.noAlias.2, h.noEnd.1, h.noEnd.2, h.noDevice, hslash, hback, Bool.or_eq_false_iff, List.any_eq_false,
      List.contains_eq_mem, decide_false, true_and]
    intro c hc
    simp [(h.chars c hc).1, (h.chars c hc).2.2]
  · rintro ⟨hskip, href⟩
    simp only [skipped, Bool.or_eq_false_iff, decide_eq_false_iff_not] at hskip
    simp only [refused, Bool.or_eq_false_iff, List.any_eq_false, decide_eq_false_iff_not, List.contains_eq_mem,
      Bool.not_eq_true] at href
    obtain ⟨⟨⟨⟨⟨⟨hdots, hslash⟩, hback⟩, hspace⟩, hdot⟩, hdevice⟩, hchars⟩ := href
    exact ⟨hskip.1, ⟨hskip.2, hdots⟩, fun c hc => ⟨(hchars c hc).1, fun h => hslash (h ▸ hc), (hchars c hc).2⟩,
      ⟨hspace, hdot⟩, hdevice⟩

theorem SafePart.plain {part : List Char} (h : SafePart part) : Plain part := by
  refine ⟨by simp [h.nonempty, h.noAlias.1, h.noAlias.2], fun hmem => (h.chars _ hmem).2.1 rfl⟩

/-! ### The result -/

def pathSegments (p : String) : List (List Char) := if p = "" then [] else p.toList.splitOn '/'

theorem sanitizePath_eq (path : ByteArray) :
    sanitizePath path = (String.fromUTF8? path).bind fun s => (sanitizeParts (s.toList.splitOn '/') []).map
      String.ofList := by
  unfold sanitizePath
  split
  · rename_i hsize
    obtain rfl : path = "".toByteArray := ByteArray.ext (Array.eq_empty_of_size_eq_zero hsize)
    rw [fromUTF8?_toByteArray]
    rfl
  · cases String.fromUTF8? path <;> rfl

theorem segments_of_safe {segs : List (List Char)} (h : ∀ seg ∈ segs, SafePart seg) : Segments segs :=
  fun seg hseg => (h seg hseg).plain.segment

theorem pathSegments_intercalate {segs : List (List Char)} (h : ∀ seg ∈ segs, SafePart seg) :
    pathSegments (String.ofList (List.intercalate ['/'] segs)) = segs := by
  by_cases hne : segs = []
  · subst hne
    rfl
  · have hbody := intercalate_ne_nil (segments_of_safe h) hne
    have hstr : String.ofList (List.intercalate ['/'] segs) ≠ "" := fun heq => hbody (String.ofList_injective heq)
    rw [pathSegments, if_neg hstr, String.toList_ofList]
    exact List.splitOn_intercalate '/' (fun seg hseg => (h seg hseg).plain.2) hne

theorem sanitizePath_ok {path : ByteArray} {p : String} (h : sanitizePath path = some p) :
    ∃ s decoded, String.fromUTF8? path = some s ∧ (kept (s.toList.splitOn '/')).mapM decodePart = some decoded ∧
      (∀ part ∈ kept decoded, SafePart part) ∧ p = String.ofList (List.intercalate ['/'] (kept decoded)) := by
  rw [sanitizePath_eq, Option.bind_eq_some_iff] at h
  obtain ⟨s, hs, h⟩ := h
  obtain ⟨r, hr, rfl⟩ := Option.map_eq_some_iff.1 h
  obtain ⟨decoded, hdec, href, rfl⟩ := sanitizeParts_ok.1 hr
  have hsafe : ∀ part ∈ kept decoded, SafePart part := by
    intro part hpart
    have hskip : skipped part = false := by simpa using (List.mem_filter.1 hpart).2
    exact safePart_iff.2 ⟨hskip, href part hpart⟩
  exact ⟨s, decoded, hs, hdec, hsafe, by rw [foldl_addPart_nil (segments_of_safe hsafe)]⟩

theorem mapM_decodePart {segs : List (List Char)} (h : ∀ seg ∈ segs, SafePart seg) :
    segs.mapM decodePart = some segs := by
  induction segs with
  | nil => rfl
  | cons seg segs ih =>
    have hpercent : '%' ∉ seg := fun hmem => ((h seg List.mem_cons_self).chars _ hmem).2.2 (by decide)
    rw [List.mapM_cons, decodePart_plain hpercent, ih fun s hs => h s (List.mem_cons_of_mem _ hs)]
    rfl

theorem sanitizePath_safe {segs : List (List Char)} (h : ∀ seg ∈ segs, SafePart seg) :
    sanitizePath (String.ofList (List.intercalate ['/'] segs)).toByteArray =
      some (String.ofList (List.intercalate ['/'] segs)) := by
  rw [sanitizePath_eq, fromUTF8?_toByteArray, Option.bind_some, String.toList_ofList]
  by_cases hne : segs = []
  · subst hne
    rfl
  · rw [List.splitOn_intercalate '/' (fun seg hseg => (h seg hseg).plain.2) hne]
    have hkept : kept segs = segs := List.filter_eq_self.2 fun seg hseg => by simp [(safePart_iff.1 (h seg hseg)).1]
    have hparts : sanitizeParts segs [] = some (List.intercalate ['/'] segs) := by
      refine sanitizeParts_ok.2 ⟨segs, ?_, fun part hpart => ?_, ?_⟩
      · rw [hkept, mapM_decodePart h]
      · rw [hkept] at hpart
        exact (safePart_iff.1 (h part hpart)).2
      · rw [hkept, foldl_addPart_nil (segments_of_safe h)]
    rw [hparts]
    rfl

/-! ### Under a root -/

theorem cleanSegment_ne_dot {rooted : Bool} {acc : List (List Char)} (hacc : ∀ s ∈ acc, s ≠ ['.']) (seg : List Char) :
    ∀ s ∈ cleanSegment rooted acc seg, s ≠ ['.'] := by
  unfold cleanSegment
  split
  · exact hacc
  · rename_i hplain
    have hcons : ∀ s ∈ seg :: acc, s ≠ ['.'] := by
      intro s hs
      rcases List.mem_cons.1 hs with rfl | hs
      · exact fun hdot => hplain (.inr hdot)
      · exact hacc s hs
    split
    · split
      · split
        · exact fun s hs => absurd hs List.not_mem_nil
        · exact fun s hs => hcons s (by simpa using hs)
      · split
        · exact hcons
        · exact fun s hs => hacc s (List.mem_cons_of_mem _ hs)
    · exact hcons

theorem cleanSegments_ne_dot {rooted : Bool} (p : List Char) : ∀ s ∈ cleanSegments rooted [] p, s ≠ ['.'] := by
  have hfold : ∀ (l : List (List Char)) {acc : List (List Char)}, (∀ s ∈ acc, s ≠ ['.']) →
      ∀ s ∈ l.foldl (cleanSegment rooted) acc, s ≠ ['.'] := by
    intro l
    induction l with
    | nil => exact fun hacc => hacc
    | cons seg l ih => exact fun hacc => ih (cleanSegment_ne_dot hacc seg)
  exact hfold _ fun s hs => absurd hs List.not_mem_nil

theorem intercalate_append {l l' : List (List Char)} (hl : l ≠ []) (hl' : l' ≠ []) :
    List.intercalate ['/'] (l ++ l') = List.intercalate ['/'] l ++ '/' :: List.intercalate ['/'] l' := by
  induction l with
  | nil => exact absurd rfl hl
  | cons s l ih =>
    rcases l with _ | ⟨t, l⟩
    · obtain ⟨t, l', rfl⟩ := List.exists_cons_of_ne_nil hl'
      simp [List.intercalate_cons_cons]
    · rw [List.cons_append, List.cons_append, List.intercalate_cons_cons, List.intercalate_cons_cons, ← List.cons_append,
        ih (List.cons_ne_nil _ _)]
      simp only [List.append_assoc]

/-- The path below a clean root. -/
def below (root p : String) : String :=
  if p = "" then root
  else if root = "." then p
  else if root = "/" then "/" ++ p
  else root ++ "/" ++ p

theorem ofList_append (a b : List Char) : String.ofList (a ++ b) = String.ofList a ++ String.ofList b :=
  String.toList_inj.1 (by simp)

theorem intercalate_ne_dot {base : List (List Char)} (h : Segments base) (hdot : ∀ s ∈ base, s ≠ ['.']) :
    List.intercalate ['/'] base ≠ ['.'] := by
  rcases base with _ | ⟨s, _ | ⟨t, l⟩⟩
  · exact List.cons_ne_nil _ _ ∘ Eq.symm
  · simpa using hdot s
  · intro heq
    have hslash : '/' ∈ ['.'] := by
      rw [← heq, List.intercalate_cons_cons]
      simp
    simp at hslash

theorem intercalate_head?_ne_slash {base : List (List Char)} (h : Segments base) :
    (List.intercalate ['/'] base).head? ≠ some '/' := by
  rcases base with _ | ⟨s, l⟩
  · simp
  · obtain ⟨hne, hslash⟩ := h s List.mem_cons_self
    obtain ⟨c, t, rfl⟩ := List.exists_cons_of_ne_nil hne
    have hc : c ≠ '/' := fun hc => hslash (by simp [hc])
    rcases l with _ | ⟨u, l⟩
    · simpa using hc
    · simpa [List.intercalate_cons_cons] using hc

/-- Parts below the segments of a clean path. -/
theorem render_below {rooted : Bool} {base segs : List (List Char)} (hbase : Segments base)
    (hdot : ∀ s ∈ base, s ≠ ['.']) (hsegs : ∀ seg ∈ segs, SafePart seg) (hne : segs ≠ []) :
    String.ofList (render rooted (segs.reverse ++ base)) =
      below (String.ofList (render rooted base)) (String.ofList (List.intercalate ['/'] segs)) := by
  have hbody := intercalate_ne_nil (segments_of_safe hsegs) hne
  have hp : String.ofList (List.intercalate ['/'] segs) ≠ "" := fun heq => hbody (String.ofList_injective heq)
  have hrev : (segs.reverse ++ base).reverse = base.reverse ++ segs := by simp
  rw [below, if_neg hp]
  unfold render
  rw [hrev]
  by_cases hnil : base = []
  · subst hnil
    cases rooted with
    | false => simp [hbody]
    | true =>
      have hroot : String.ofList ['/'] = "/" := by decide
      simp only [if_true, List.reverse_nil, List.nil_append, List.intercalate_nil, hroot]
      rw [if_neg (by decide), ← hroot, ← ofList_append]
      rfl
  · have hnil' : base.reverse ≠ [] := by simpa using hnil
    have hbase' : Segments base.reverse := fun s hs => hbase s (List.mem_reverse.1 hs)
    have hroot : List.intercalate ['/'] base.reverse ≠ [] := intercalate_ne_nil hbase' hnil'
    have hrootdot := intercalate_ne_dot hbase' fun s hs => hdot s (List.mem_reverse.1 hs)
    have hjoin : ∀ a : List Char, String.ofList (a ++ '/' :: List.intercalate ['/'] segs) =
        String.ofList a ++ "/" ++ String.ofList (List.intercalate ['/'] segs) := by
      intro a
      exact String.toList_inj.1 (by simp)
    have hdotne : ∀ a : List Char, a ≠ ['.'] → String.ofList a ≠ "." := fun a ha heq =>
      ha (String.ofList_injective heq)
    have hslashne : ∀ a : List Char, a ≠ ['/'] → String.ofList a ≠ "/" := fun a ha heq =>
      ha (String.ofList_injective heq)
    rw [intercalate_append hnil' hne]
    cases rooted with
    | true =>
      simp only [if_true]
      rw [if_neg (hdotne _ (by simp)), if_neg (hslashne _ (by simpa using hroot)), ← hjoin]
      rfl
    | false =>
      have hslash : List.intercalate ['/'] base.reverse ≠ ['/'] := by
        intro heq
        exact intercalate_head?_ne_slash hbase' (by rw [heq]; rfl)
      simp only [Bool.false_eq_true, if_false, if_neg hroot]
      rw [if_neg (by simp), if_neg (hdotne _ hrootdot), if_neg (hslashne _ hslash), ← hjoin]

theorem pathClean_eq (p : String) :
    pathClean p = String.ofList (render (p.toList.head? == some '/')
      (cleanSegments (p.toList.head? == some '/') [] p.toList)) := rfl

theorem cleanSegments_of_root (rooted : Bool) (root : List Char) : Segments (cleanSegments rooted [] root) :=
  cleanSegments_segments root fun _ hs => absurd hs List.not_mem_nil

theorem filepathJoin_safe (root : String) {segs : List (List Char)} (h : ∀ seg ∈ segs, SafePart seg) :
    filepathJoin root (String.ofList (List.intercalate ['/'] segs)) =
      if root = "" ∧ segs = [] then "" else below (pathClean root) (String.ofList (List.intercalate ['/'] segs)) := by
  have hplain : ∀ seg ∈ segs, Plain seg := fun seg hseg => (h seg hseg).plain
  by_cases hroot : root = ""
  · subst hroot
    by_cases hne : segs = []
    · subst hne
      rfl
    · have hbody := intercalate_ne_nil (segments_of_safe h) hne
      have hp : String.ofList (List.intercalate ['/'] segs) ≠ "" := fun heq => hbody (String.ofList_injective heq)
      have hhead : ((List.intercalate ['/'] segs).head? == some '/') = false := by
        simpa using intercalate_head?_ne_slash (segments_of_safe h)
      have hrender : render false (segs.reverse ++ []) = List.intercalate ['/'] segs := by simp [render, hbody]
      rw [filepathJoin, if_neg (not_not.2 rfl), if_pos hp, if_neg (by simp [hne]), pathClean_eq, String.toList_ofList, hhead,
        cleanSegments_plain hplain hne, hrender, below, if_neg hp, if_pos (by decide)]
  · have hrooted : rootIsRooted root = (root.toList.head? == some '/') := by
      have hlist : root.toList ≠ [] := fun hnil => hroot (String.toList_inj.1 hnil)
      obtain ⟨c, t, heq⟩ := List.exists_cons_of_ne_nil hlist
      rw [rootIsRooted, heq]
      rfl
    rw [filepathJoin, if_pos hroot, if_neg (by simp [hroot]), pathClean_eq root, ← hrooted]
    by_cases hne : segs = []
    · subst hne
      have hlist : (root ++ "/" ++ String.ofList (List.intercalate ['/'] [])).toList = root.toList ++ '/' :: [] := by simp
      have hhead : ((root.toList ++ '/' :: []).head? == some '/') = rootIsRooted root := rfl
      have hlast : ∀ (rooted : Bool) (acc : List (List Char)), cleanSegments rooted acc [] = acc := fun _ _ => rfl
      have hempty : String.ofList (List.intercalate ['/'] []) = "" := rfl
      rw [pathClean_eq, hlist, cleanSegments_append, hhead, hlast, hempty, below, if_pos rfl]
    · rw [← render_below (cleanSegments_of_root _ _) (cleanSegments_ne_dot _) h hne, ← under_eq hplain hne]
      rfl

/-- An accepted path consists of safe parts, each decoded once. A second run keeps it, and below a root it stays there. -/
theorem sanitizePath_canonical {path : ByteArray} {p : String} (h : sanitizePath path = some p) :
    (∀ seg ∈ pathSegments p, SafePart seg) ∧
    sanitizePath p.toByteArray = some p ∧
    (∃ s decoded, String.fromUTF8? path = some s ∧ (kept (s.toList.splitOn '/')).mapM decodePart = some decoded ∧
      pathSegments p = kept decoded) ∧
    ∀ root, filepathJoin root p = if root = "" ∧ p = "" then "" else below (pathClean root) p := by
  obtain ⟨s, decoded, hs, hdec, hsafe, rfl⟩ := sanitizePath_ok h
  have hsegs := pathSegments_intercalate hsafe
  refine ⟨fun seg hseg => hsafe seg (hsegs ▸ hseg), sanitizePath_safe hsafe, ⟨s, decoded, hs, hdec, hsegs⟩,
    fun root => ?_⟩
  have hnil : kept decoded = [] ↔ String.ofList (List.intercalate ['/'] (kept decoded)) = "" := by
    constructor
    · intro hk
      rw [hk]
      rfl
    · intro hp
      rw [hp] at hsegs
      exact hsegs.symm
  simp only [filepathJoin_safe root hsafe, hnil]

/-- A part that is decoded, and a skipped one. -/
theorem sanitizePath_canonical_decoded :
    sanitizePath "com//a%2Eb/%2E/lib".toByteArray = some "com/a.b/lib" ∧ sanitizePath "com/a.b/lib".toByteArray =
      some "com/a.b/lib" := by
  have h : sanitizePath "com//a%2Eb/%2E/lib".toByteArray = some "com/a.b/lib" := by decide
  exact ⟨h, (sanitizePath_canonical h).2.1⟩

end Renop.Path
