import Mathlib.Algebra.GroupWithZero.Nat
import Mathlib.Algebra.Ring.Int.Defs
import Mathlib.Data.List.AList
import Mathlib.Logic.Function.Basic

/-!
# The file index

`FileIndex` of `index/models.go` in sync mode: the maps `Files`, `Dirs`, `Blocked` and `NotFound`, the
listing `Children` of each parent, and four counters that are updated by hand beside them. Paths are
clean slash paths, on which `toSlashFast` is the identity. `IsDirty` is not read here and left out.

Sizes and counters are integers, where the source has `int64` and `atomic.Int64`: files that are on a
disk together do not add up to 2^63 bytes, and the source never compares the counters but for the limit
of `NotFound`.
-/

namespace Renop.Index

structure FileInfo where
  size : Int
  modTime : Int
deriving DecidableEq, Repr

/-- `pb.MapOf[string, α]` -/
abbrev PathMap (α : Type) : Type := AList fun _ : String => α

/-! ### Paths -/

/-- Split at the last slash. -/
def splitLast : List Char → Option (List Char × List Char)
  | [] => none
  | c :: cs =>
    match splitLast cs with
    | some (parent, base) => some (c :: parent, base)
    | none => if c = '/' then some ([], cs) else none

def splitPathParentBase (filePath : String) : String × String :=
  match splitLast filePath.toList with
  | none => ("", filePath)
  | some ([], base) => ("/", String.ofList base)
  | some (parent, base) => (String.ofList parent, String.ofList base)

/-- One segment of `path.Clean`; the segments so far are in reverse. -/
def cleanSegment (rooted : Bool) (acc : List (List Char)) (seg : List Char) : List (List Char) :=
  if seg = [] ∨ seg = ['.'] then acc
  else if seg = ['.', '.'] then
    match acc with
    | [] => if rooted then [] else [seg]
    | last :: rest => if last = ['.', '.'] then seg :: acc else rest
  else seg :: acc

/-- `path.Clean` -/
def pathClean (p : String) : String :=
  let rooted := p.toList.head? == some '/'
  let segs := (p.toList.splitOn '/').foldl (cleanSegment rooted) []
  let body := List.intercalate ['/'] segs.reverse
  String.ofList (if rooted then '/' :: body else if body = [] then ['.'] else body)

example : pathClean "a//b/../c/." = "a/c" := by decide

/-! ### The index -/

structure FileIndex where
  files : PathMap FileInfo
  dirs : PathMap Bool
  blocked : PathMap Bool
  /-- The base names under a parent; an absent entry is `[]`. -/
  children : String → List String
  filesCount : Int
  dirsCount : Int
  /-- The sum of the sizes of `files`. -/
  totalBytes : Int
  notFound : PathMap Int
  notFoundCount : Int

namespace FileIndex

def newFileIndex : FileIndex := ⟨∅, ∅, ∅, fun _ => [], 0, 0, 0, ∅, 0⟩

def addChild (idx : FileIndex) (filePath : String) : FileIndex :=
  let (parent, base) := splitPathParentBase filePath
  if parent = filePath ∨ parent = "." ∨ parent = "/" ∨ parent = "" then idx
  else if base ∈ idx.children parent then idx
  else { idx with children := Function.update idx.children parent (idx.children parent ++ [base]) }

def removeChild (idx : FileIndex) (filePath : String) : FileIndex :=
  let (parent, base) := splitPathParentBase filePath
  let listed := Function.update idx.children parent ((idx.children parent).erase base)
  { idx with children := Function.update listed filePath [] }

def isBlocked (idx : FileIndex) (path : String) : Bool := path ≠ "" && path ∈ idx.blocked

def deleteFile (idx : FileIndex) (path : String) : FileIndex :=
  match idx.files.lookup path with
  | none => idx
  | some old =>
    removeChild { idx with
      files := idx.files.erase path
      filesCount := idx.filesCount - 1
      totalBytes := if old.size ≠ 0 then idx.totalBytes - old.size else idx.totalBytes } path

def clearNotFound (idx : FileIndex) (path : String) : FileIndex :=
  if path ∈ idx.notFound then
    { idx with notFound := idx.notFound.erase path, notFoundCount := idx.notFoundCount - 1 }
  else idx

/-- `Dirs.LoadAndDelete` with the counter. -/
def deleteDir (idx : FileIndex) (path : String) : FileIndex :=
  { idx with dirs := idx.dirs.erase path, dirsCount := idx.dirsCount - 1 }

/-- The walk over `NotFound` at the end of `removeDescendants`. -/
def clearNotFoundBelow (idx : FileIndex) (dir : String) : FileIndex :=
  idx.notFound.keys.foldl (fun idx k =>
    if k = dir ∨ (dir ++ "/").toList.isPrefixOf k.toList then clearNotFound idx k else idx) idx

/-- One child in the loop of `removeDescendants`; `nested` is the call for a subdirectory. -/
def removeDescendant (nested : FileIndex → String → FileIndex) (dir : String) (idx : FileIndex) (child : String) :
    FileIndex :=
  let childPath := dir ++ "/" ++ child
  let idx := deleteFile idx childPath
  let idx := if childPath ∈ idx.dirs then
      removeChild (nested (deleteDir idx childPath) childPath) childPath
    else idx
  clearNotFound idx childPath

/-- `removeDescendants` over a copy of the listing; each nested call has removed one more directory,
which bounds the depth. -/
def removeDescendantsFuel : Nat → FileIndex → String → FileIndex
  | 0, idx, _ => idx
  | fuel + 1, idx, dirPath =>
    let dirCleaned := pathClean dirPath
    let children := idx.children (pathClean dirCleaned)
    clearNotFoundBelow (children.foldl (removeDescendant (removeDescendantsFuel fuel) dirCleaned) idx) dirCleaned

def removeDescendants (idx : FileIndex) (dirPath : String) : FileIndex :=
  removeDescendantsFuel (idx.dirs.keys.length + 1) idx dirPath

/-- The first part of `putFile`: a directory at the path goes, with everything below it. -/
def dirToFile (idx : FileIndex) (path : String) : FileIndex :=
  let idx := removeDescendants { idx with dirs := idx.dirs.erase path } path
  removeChild { idx with dirsCount := idx.dirsCount - 1 } path

/-- The second part of `putFile`. -/
def storeFile (idx : FileIndex) (path : String) (info : FileInfo) : FileIndex :=
  match idx.files.lookup path with
  | none =>
    addChild { idx with
      files := idx.files.insert path info
      filesCount := idx.filesCount + 1
      totalBytes := if info.size ≠ 0 then idx.totalBytes + info.size else idx.totalBytes } path
  | some old =>
    addChild { idx with
      files := idx.files.insert path info
      totalBytes := if old.size ≠ info.size then idx.totalBytes + (info.size - old.size) else idx.totalBytes } path

def putFile (idx : FileIndex) (path : String) (info : FileInfo) : FileIndex :=
  if isBlocked idx path then idx
  else storeFile (if path ∈ idx.dirs then dirToFile idx path else idx) path info

def putDir (idx : FileIndex) (path : String) : FileIndex :=
  if path ∈ idx.files then idx
  else if path ∈ idx.dirs then idx
  else addChild { idx with dirs := idx.dirs.insert path true, dirsCount := idx.dirsCount + 1 } path

/-! ### The operations -/

def insertFile (idx : FileIndex) (path : String) (info : FileInfo) : FileIndex :=
  if isBlocked idx path then idx else clearNotFound (putFile idx path info) path

def insertDir (idx : FileIndex) (path : String) : FileIndex := clearNotFound (putDir idx path) path

def removeFile (idx : FileIndex) (path : String) : FileIndex := clearNotFound (deleteFile idx path) path

def removeDir (idx : FileIndex) (path : String) : FileIndex :=
  let idx := removeDescendants idx path
  let idx := if path ∈ idx.dirs then deleteDir idx path else idx
  clearNotFound (removeChild idx path) path

def blockFile (idx : FileIndex) (path : String) : FileIndex :=
  if path = "" then idx else removeFile { idx with blocked := idx.blocked.insert path true } path

def unblockFile (idx : FileIndex) (path : String) : FileIndex :=
  if path = "" then idx else { idx with blocked := idx.blocked.erase path }

/-- One entry in the loop of `pruneNotFound`: what is kept, and how many were deleted. -/
def pruneEntry (now : Int) (acc : PathMap Int × Int) (e : Sigma fun _ : String => Int) : PathMap Int × Int :=
  if e.2 ≤ now then (acc.1.erase e.1, acc.2 + 1) else acc

def pruneNotFound (idx : FileIndex) (now : Int) : FileIndex :=
  let pruned := idx.notFound.entries.foldl (pruneEntry now) (idx.notFound, 0)
  { idx with notFound := pruned.1, notFoundCount := idx.notFoundCount - pruned.2 }

def insertNotFound (idx : FileIndex) (path : String) (expireAt now : Int) : FileIndex :=
  let idx := if idx.notFoundCount ≥ 10000 then
      let idx := pruneNotFound idx now
      if idx.notFoundCount ≥ 10000 then { idx with notFound := ∅, notFoundCount := 0 } else idx
    else idx
  { idx with
    notFound := idx.notFound.insert path expireAt
    notFoundCount := if path ∈ idx.notFound then idx.notFoundCount else idx.notFoundCount + 1 }

def hasFile (idx : FileIndex) (path : String) : Bool := !isBlocked idx path && path ∈ idx.files

def hasDir (idx : FileIndex) (path : String) : Bool := path ∈ idx.dirs

/-- `path.Dir` -/
def pathDir (p : String) : String :=
  let parent := (splitPathParentBase p).1
  if parent = "" then "." else pathClean parent

/-- The parents up to the first that is indexed; each is shorter than the path before. -/
def missingParents (idx : FileIndex) : Nat → String → List String
  | 0, _ => []
  | fuel + 1, currentPath =>
    let parent := pathDir currentPath
    if parent = currentPath ∨ parent = "." ∨ parent = "/" ∨ parent = "" ∨ idx.hasDir parent then []
    else parent :: missingParents idx fuel parent

def ensureParentDirs (idx : FileIndex) (basePath : String) : FileIndex :=
  (missingParents idx basePath.toList.length basePath).foldl insertDir idx

inductive Op
  | insertFile (path : String) (info : FileInfo)
  | insertDir (path : String)
  | removeFile (path : String)
  | removeDir (path : String)
  | blockFile (path : String)
  | unblockFile (path : String)
  | insertNotFound (path : String) (expireAt now : Int)
  | pruneNotFound (now : Int)
deriving DecidableEq, Repr

def apply (idx : FileIndex) : Op → FileIndex
  | .insertFile path info => insertFile idx path info
  | .insertDir path => insertDir idx path
  | .removeFile path => removeFile idx path
  | .removeDir path => removeDir idx path
  | .blockFile path => blockFile idx path
  | .unblockFile path => unblockFile idx path
  | .insertNotFound path expireAt now => insertNotFound idx path expireAt now
  | .pruneNotFound now => pruneNotFound idx now

def run (idx : FileIndex) (ops : List Op) : FileIndex := ops.foldl apply idx

end FileIndex
end Renop.Index
