import SimpleFS.Machine.Namespace
import SimpleFS.Machine.Simulation
import SimpleFS.Walk

/-! # What the file system is for

A map from paths to directories and files with their bytes, and a table of open files. Here are the calls a client
may make and what each answers; nothing in here knows of blocks, bitmaps and inodes. Paths have their last name first.
-/
namespace SimpleFS
open Bytes Machine

/-! ## The state -/

inductive Node
  | dir
  | file (data : List UInt8)
deriving DecidableEq

/-- The size that is reported. -/
def Node.size : Node → ℤ
  | .dir => 4096
  | .file data => data.length

/-- An open file: where it is, and the size its handle remembers. -/
structure Handle where
  path : List (List UInt8)
  size : ℤ
deriving DecidableEq

structure Files where
  names : Namespace (List UInt8) Node
  handle : ℕ → Option Handle

namespace Files

/-- A new volume. -/
def empty : Files := ⟨Namespace.bare .dir,fun _ => none⟩

def put (a : Files) (p : List (List UInt8)) (v : Option Node) : Files := { a with names := Function.update a.names p v }

def setHandle (a : Files) (fid : ℕ) (h : Option Handle) : Files := { a with handle := Function.update a.handle fid h }

@[simp] theorem put_self {a : Files} {p : List (List UInt8)} {v : Option Node} : (a.put p v).names p = v := by
  show Function.update a.names p v p = v
  rw [Function.update_self]

theorem put_of_ne {a : Files} {p q : List (List UInt8)} {v : Option Node} (hq : q ≠ p) : (a.put p v).names q = a.names q := by
  show Function.update a.names p v q = a.names q
  rw [Function.update_of_ne hq]

@[simp] theorem setHandle_self {a : Files} {fid : ℕ} {h : Option Handle} : (a.setHandle fid h).handle fid = h := by
  show Function.update a.handle fid h fid = h
  rw [Function.update_self]

theorem setHandle_of_ne {a : Files} {fid j : ℕ} {h : Option Handle} (hj : j ≠ fid) : (a.setHandle fid h).handle j = a.handle j := by
  show Function.update a.handle fid h j = a.handle j
  rw [Function.update_of_ne hj]

/-- What is open at `p` or below it is open at `q` or below it. -/
def relocate (p q : List (List UInt8)) (h : Handle) : Handle :=
  if p <:+ h.path then { h with path := h.path.take (h.path.length - p.length) ++ q } else h

def move (a : Files) (p q : List (List UInt8)) : Files :=
  ⟨a.names.move p q,fun fid => (a.handle fid).map (relocate p q)⟩

/-- Where a rename puts the entry: into a target that is a directory, under the new name in the same directory, and
under the old name in another one. -/
def newPath (a : Files) (p : List (List UInt8)) (x : List UInt8) (q : List (List UInt8)) (y : List UInt8) : List (List UInt8) :=
  if a.names (y :: q) = some .dir then x :: y :: q else if p = q then y :: q else x :: q

end Files

/-- What replaces the data when a file is written from its start: the text in the buffer, and zeros. -/
def textOf (data : List UInt8) : List UInt8 :=
  data.takeWhile (· ≠ 0) ++ List.replicate (data.length - (data.takeWhile (· ≠ 0)).length) 0

/-! ## Calls and answers -/

/-- The calls of FUSE, and a mount of the same device. -/
inductive FileCall
  | mkdir (p : List (List UInt8)) (x : List UInt8)
  | unlink (p : List (List UInt8)) (x : List UInt8)
  | rmdir (p : List (List UInt8)) (x : List UInt8)
  | rename (p : List (List UInt8)) (x : List UInt8) (q : List (List UInt8)) (y : List UInt8)
  | openFile (p : List (List UInt8)) (x : List UInt8) (flags mode : ℕ)
  | release (fid : ℕ)
  | write (path : List UInt8) (fid : ℕ) (data : List UInt8) (offset : ℕ)
  | read (path : List UInt8) (fid size : ℕ)
  | getattr (p : List (List UInt8))
  | readdir (p : List (List UInt8))
  | utimens (p : List (List UInt8)) (atime mtime : ℤ)
  | remount
deriving DecidableEq

/-- The result, and what a call that looks something up hands out with it: a size, bytes, names with whether they
are names of directories. -/
inductive Answer
  | code (r : ℤ)
  | attr (r size : ℤ)
  | data (r : ℤ) (bytes : List UInt8)
  | entries (r : ℤ) (l : List (List UInt8 × Bool))
deriving DecidableEq

namespace Files

/-! ## What is allowed -/

/-- A path that the program can follow: its names are plain, it fits, and no file lies on it. -/
structure Walkable (a : Files) (p : List (List UInt8)) : Prop where
  plain : ∀ x ∈ p, PlainName x
  length : (mkPath p.reverse).length < fnameSize
  through : a.names.Through .dir p

/-- The root, or a name behind a path that can be followed. -/
def Plain (a : Files) : List (List UInt8) → Prop
  | [] => True
  | x :: p => PlainName x ∧ a.Walkable p

/-- Nothing is open at `p`. -/
def Closed (a : Files) (p : List (List UInt8)) : Prop := ∀ fid h, a.handle fid = some h → h.path ≠ p

/-- A write fits the block and begins at the end of the data, or at the start of a file that has some. -/
structure Writable (a : Files) (fid : ℕ) (data : List UInt8) (offset : ℕ) : Prop where
  some : data ≠ []
  fits : offset + data.length ≤ 4096
  place : ∃ h old, a.handle fid = .some h ∧ a.names h.path = .some (.file old) ∧
    (offset = old.length ∧ h.size ≤ (offset + data.length : ℕ) ∨ offset = 0 ∧ old ≠ [])

/-- A client follows plain paths through directories, removes what it knows to be a file or a directory and closes a
file before it removes it. A rename does not put a directory into itself, and hides no name. -/
def Allowed (a : Files) : FileCall → Prop
  | .mkdir p x => a.Plain (x :: p)
  | .unlink p x => a.Plain (x :: p) ∧ a.names (x :: p) ≠ some .dir ∧ a.Closed (x :: p)
  | .rmdir p x => a.Plain (x :: p) ∧ ∀ data, a.names (x :: p) ≠ some (.file data)
  | .rename p x q y => a.Plain (x :: p) ∧ a.Plain (y :: q) ∧ ¬x :: p <:+ q ∧ (y :: q = x :: p → a.names (x :: p) ≠ some .dir) ∧
      (a.names (y :: q) = none → p ≠ q → a.names (x :: q) = none)
  | .openFile p x _ _ => a.Plain (x :: p) ∧ a.names p ≠ none
  | .release fid => a.handle fid ≠ none
  | .write path fid data offset => slash ∈ path ∧ a.Writable fid data offset
  | .read path fid size => slash ∈ path ∧ 0 < size ∧
      ∃ h data, a.handle fid = some h ∧ a.names h.path = some (.file data) ∧ (data = [] ∨ size ≤ data.length)
  | .getattr p => a.Plain p
  | .readdir p => a.Plain p ∧ ∀ data, a.names p ≠ some (.file data)
  | .utimens p _ _ => a.Plain p
  | .remount => True

/-! ## What calls do -/

/-- What a listing says of a directory: its own entry and its parent's, and every name in it, each of them once. -/
structure Lists (a : Files) (p : List (List UInt8)) (l : List (List UInt8 × Bool)) : Prop where
  once : (l.map Prod.fst).Nodup
  dots : dotName ∈ l.map Prod.fst ∧ dotdotName ∈ l.map Prod.fst
  names : ∀ x b, x ≠ dotName → x ≠ dotdotName →
    ((x,b) ∈ l ↔ ∃ v, a.names (x :: p) = some v ∧ b = decide (v = .dir))

/-- The first handle that is not in use. -/
structure FirstFree (a : Files) (fid : ℕ) : Prop where
  lo : 3 ≤ fid
  hi : fid < 16
  free : a.handle fid = none
  first : ∀ j, 3 ≤ j → j < fid → a.handle j ≠ none

/-- Every handle is in use. -/
def Exhausted (a : Files) : Prop := ∀ j, 3 ≤ j → j < 16 → a.handle j ≠ none

inductive Step (a : Files) : FileCall → Answer → Files → Prop
  | mkdirNoParent {p : List (List UInt8)} {x : List UInt8} (h : a.names p = none) : Step a (.mkdir p x) (.code (-enoent)) a
  | mkdirExists {p : List (List UInt8)} {x : List UInt8} (h : a.names (x :: p) ≠ none) : Step a (.mkdir p x) (.code (-eexist)) a
  | made {p : List (List UInt8)} {x : List UInt8} (hp : a.names p = some .dir) (h : a.names (x :: p) = none) :
      Step a (.mkdir p x) (.code lab4Success) (a.put (x :: p) (some .dir))
  | unlinkMissing {p : List (List UInt8)} {x : List UInt8} (h : a.names (x :: p) = none) :
      Step a (.unlink p x) (.code (-enoent)) a
  | unlinked {p : List (List UInt8)} {x : List UInt8} {data : List UInt8} (h : a.names (x :: p) = some (.file data)) :
      Step a (.unlink p x) (.code lab4Success) (a.put (x :: p) none)
  | rmdirMissing {p : List (List UInt8)} {x : List UInt8} (h : a.names (x :: p) = none) :
      Step a (.rmdir p x) (.code (-enoent)) a
  | rmdirNotEmpty {p : List (List UInt8)} {x : List UInt8} (h : a.names (x :: p) = some .dir)
      (hn : ¬a.names.Childless (x :: p)) : Step a (.rmdir p x) (.code (-enotempty)) a
  | rmdirDone {p : List (List UInt8)} {x : List UInt8} (h : a.names (x :: p) = some .dir) (hn : a.names.Childless (x :: p)) :
      Step a (.rmdir p x) (.code lab4Success) (a.put (x :: p) none)
  | renameMissing {p q : List (List UInt8)} {x y : List UInt8} (h : a.names (x :: p) = none) :
      Step a (.rename p x q y) (.code (-enoent)) a
  /-- The target is a file, or a directory with an entry of the old name. -/
  | renameExists {p q : List (List UInt8)} {x y : List UInt8} (h : a.names (x :: p) ≠ none)
      (hy : (∃ data, a.names (y :: q) = some (.file data)) ∨ a.names (y :: q) = some .dir ∧ a.names (x :: y :: q) ≠ none) :
      Step a (.rename p x q y) (.code (-eexist)) a
  | renamed {p q : List (List UInt8)} {x y : List UInt8} (h : a.names (x :: p) ≠ none)
      (hy : a.names (y :: q) = none ∧ a.names q = some .dir ∨ a.names (y :: q) = some .dir ∧ a.names (x :: y :: q) = none) :
      Step a (.rename p x q y) (.code lab4Success) (a.move (x :: p) (a.newPath p x q y))
  /-- A directory, a file that is neither there nor asked for, or no handle left. The result is no handle. -/
  | openRefused {p : List (List UInt8)} {x : List UInt8} {flags mode : ℕ} {r : ℤ} (hr : r ≤ 0)
      (h : a.names (x :: p) = none ∨ a.names (x :: p) = some .dir ∨ a.Exhausted) : Step a (.openFile p x flags mode) (.code r) a
  | opened {p : List (List UInt8)} {x : List UInt8} {flags mode fid : ℕ} {data : List UInt8}
      (h : a.names (x :: p) = some (.file data)) (hf : a.FirstFree fid) :
      Step a (.openFile p x flags mode) (.code fid) (a.setHandle fid (some ⟨x :: p,data.length⟩))
  | created {p : List (List UInt8)} {x : List UInt8} {flags mode fid : ℕ} (hc : flags &&& oRdwr ≠ 0 ∨ flags &&& oCreat ≠ 0)
      (h : a.names (x :: p) = none) (hf : a.FirstFree fid) :
      Step a (.openFile p x flags mode) (.code fid) ((a.put (x :: p) (some (.file []))).setHandle fid (some ⟨x :: p,0⟩))
  /-- The file is there although the open has failed. -/
  | createdOnly {p : List (List UInt8)} {x : List UInt8} {flags mode : ℕ} {r : ℤ} (hr : r ≤ 0)
      (hc : flags &&& oRdwr ≠ 0 ∨ flags &&& oCreat ≠ 0) (h : a.names (x :: p) = none) (hf : a.Exhausted) :
      Step a (.openFile p x flags mode) (.code r) (a.put (x :: p) (some (.file [])))
  | released {fid : ℕ} : Step a (.release fid) (.code lab4Success) (a.setHandle fid none)
  | appended {path data old : List UInt8} {fid offset : ℕ} {h : Handle} (hh : a.handle fid = some h)
      (hn : a.names h.path = some (.file old)) (ho : offset = old.length) :
      Step a (.write path fid data offset) (.code data.length)
        ((a.put h.path (some (.file (old ++ data)))).setHandle fid (some ⟨h.path,(offset + data.length : ℕ)⟩))
  /-- A write before the end answers with the size of a cluster. -/
  | replaced {path data old : List UInt8} {fid : ℕ} {h : Handle} (hh : a.handle fid = some h)
      (hn : a.names h.path = some (.file old)) (ho : old ≠ []) :
      Step a (.write path fid data 0) (.code 4096)
        ((a.put h.path (some (.file (textOf data)))).setHandle fid (some ⟨h.path,data.length⟩))
  | read {path data : List UInt8} {fid size : ℕ} {h : Handle} (hh : a.handle fid = some h)
      (hn : a.names h.path = some (.file data)) :
      Step a (.read path fid size) (.data ((data.take size).takeWhile (· ≠ 0)).length ((data.take size).takeWhile (· ≠ 0))) a
  | getattrMissing {p : List (List UInt8)} (h : a.names p = none) : Step a (.getattr p) (.attr (-enoent) 0) a
  | getattr {p : List (List UInt8)} {v : Node} (h : a.names p = some v) : Step a (.getattr p) (.attr lab4Success v.size) a
  | readdirMissing {p : List (List UInt8)} (h : a.names p = none) : Step a (.readdir p) (.entries (-enoent) []) a
  | readdir {p : List (List UInt8)} {l : List (List UInt8 × Bool)} (h : a.names p = some .dir) (hl : a.Lists p l) :
      Step a (.readdir p) (.entries lab4Success l) a
  /-- The times of the record stay as they are, and nobody is told of a path that leads nowhere. -/
  | utimens {p : List (List UInt8)} {t t' : ℤ} : Step a (.utimens p t t') (.code lab4Success) a
  | remounted : Step a .remount (.code lab4Success) { a with handle := fun _ => none }

def spec : Spec Files FileCall Answer := ⟨Allowed,Step⟩

end Files

end SimpleFS
