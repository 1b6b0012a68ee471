import SimpleFS.Inode

/-! # Directory slots, names and path resolution: `lab4_lookup`, `get_name_from_path`, `lab4_read_inode` -/
namespace SimpleFS
open Bytes Machine Prog

/-! ## Directory slots -/

def DirEntry.zero : DirEntry := ⟨0,0,0,fun _ => 0⟩

/-- Slot `i` of a directory buffer. -/
def entryAt (buf : Mem) (i : ℕ) : DirEntry := dirEntryCodec.get buf (lab4DirEntrySize * i)

/-- The loop over slots `i, i+1, …` that starts inside `dirSize` bytes, up to the first one the test
accepts. `left` slots of the buffer remain; the slot after them is outside the allocation, and the
test itself may have no defined value. The result is whether the loop broke off, and where. -/
def slotLoop (test : DirEntry → Option Bool) (dirSize : ℤ) (buf : Mem) : ℕ → ℕ → Option (Bool × ℕ)
  | 0, i => if (lab4DirEntrySize * i : ℕ) < dirSize then none else some (false,i)
  | left + 1, i =>
    if (lab4DirEntrySize * i : ℕ) < dirSize then
      match test (entryAt buf i) with
      | none => none
      | some true => some (true,i)
      | some false => slotLoop test dirSize buf left (i + 1)
    else some (false,i)

/-- The characters of a fixed-size field before its first NUL. -/
def cstr {n : ℕ} (field : Fin n → UInt8) : List UInt8 := (List.ofFn field).takeWhile (· ≠ 0)

/-- `strcpy` of a short string into a zeroed file name field. -/
def strcpyName (name : List UInt8) : Fin 116 → UInt8 := fun i => name.getD i 0

/-- `strcmp(d_filename, filename) == 0`; a field without a NUL that agrees with `filename` all along is
read past its end. -/
def strcmpName (field : Fin 116 → UInt8) (filename : List UInt8) : Option Bool :=
  if (cstr field).length < fnameSize then some (decide (cstr field = filename))
  else if (cstr field).isPrefixOf filename then none
  else some false

def lookupTest (filename : List UInt8) (d : DirEntry) : Option Bool :=
  if d.dFlag = lab4DirUsed then strcmpName d.dFilename filename else some false

def freeTest (d : DirEntry) : Option Bool := some (decide (d.dFlag ≠ lab4DirUsed))
def usedTest (d : DirEntry) : Option Bool := some (decide (d.dFlag = lab4DirUsed))

/-- `lab4_lookup` with its two out-parameters: a caller that passes `isdelete = 1` gets the entry
already marked deleted and its byte offset. -/
def lab4Lookup (parentDirIno : UInt32) (fileEntry : DirEntry) (filename : List UInt8) (isdelete : ℤ) :
    M (ℤ × DirEntry × ℤ) := do
  match ← doReadInode parentDirIno with
  | none => return (lab4Error,fileEntry,isdelete)
  | some dirInode =>
    if !(← malloc) then return (lab4Error,fileEntry,isdelete)
    let m ← getIom
    let dirSize := dirInode.iSize.toInt
    let (res,bufDirEntry) ← pread m.clusterSize zeros m.clusterSize dirInode.blocknr
    if res = lab4Error then return (lab4Error,fileEntry,isdelete)
    let (found,i) ← lift (slotLoop (lookupTest filename) dirSize bufDirEntry (m.clusterSize / lab4DirEntrySize) 0)
    if found = true then
      let dir := entryAt bufDirEntry i
      if isdelete = 1 then
        return (lab4Success,{ dir with dFlag := lab4DirDeleted },toS32 (lab4DirEntrySize * i : ℕ))
      return (lab4Success,dir,-1)
    return (-enoent,fileEntry,isdelete)

/-! ## Names -/

def slash : UInt8 := 47

def doPathCheck (path : List UInt8) : ℤ := if slash ∈ path then lab4Success else lab4Error

/-- A zeroed `char[FNAME_SIZE]` after `bytes` were copied to its start. -/
structure NameBuf where
  bytes : List UInt8
  fits : bytes.length ≤ fnameSize

def NameBuf.copy (bytes : List UInt8) : Option NameBuf := if h : bytes.length ≤ fnameSize then some ⟨bytes,h⟩ else none

/-- That copy, `strncpy` without a terminator. -/
def NameBuf.copied (bytes : List UInt8) : Copy := ⟨fnameSize,bytes.length⟩

/-- The string in the buffer; a full buffer has no terminator. -/
def NameBuf.cstr (b : NameBuf) : Option (List UInt8) := if b.bytes.length < fnameSize then some b.bytes else none

/-- A buffer of `cap` bytes after `strcpy` put a string at its start. -/
structure PathBuf where
  cap : ℕ
  text : List UInt8

/-- That copy; the terminator is copied too. -/
def PathBuf.copied (b : PathBuf) : Copy := ⟨b.cap,b.text.length + 1⟩

/-- `tmp_path` of `get_name_from_path`: an allocation of `strlen(path)` bytes. -/
def heapPath (path : List UInt8) : PathBuf := ⟨path.length,path⟩

/-- `tmp_path` of `lab4_read_inode`. -/
def stackPath (path : List UInt8) : PathBuf := ⟨256,path⟩

@[simp] theorem heapPath_text (path : List UInt8) : (heapPath path).text = path := rfl
@[simp] theorem stackPath_cap (path : List UInt8) : (stackPath path).cap = 256 := rfl
@[simp] theorem stackPath_text (path : List UInt8) : (stackPath path).text = path := rfl

def strchr (c : UInt8) : List UInt8 → Option (List UInt8)
  | [] => none
  | a :: l => if a = c then some (a :: l) else strchr c l

/-- The `strchr` loop: `f_ptr` moves behind one slash after another. -/
def fPtrLoop : ℕ → List UInt8 → List UInt8
  | 0, fPtr => fPtr
  | fuel + 1, fPtr =>
    match strchr slash fPtr with
    | none => fPtr
    | some fTmp => fPtrLoop fuel fTmp.tail

/-- File name and directory part. The terminator of `tmp_path` lands behind the allocation, and `strchr` and `strlen`
find it there: that copy goes on. A copy that does not fit its name buffer does not. -/
def getNameFromPath (path : List UInt8) : M (NameBuf × NameBuf) := do
  if !(← malloc) then undefined
  else
    let tmpPath := heapPath path
    let fPtr := fPtrLoop (tmpPath.text.length + 1) tmpPath.text
    let fName ← lift (NameBuf.copy fPtr)
    -- without a slash the length `(f_ptr-1)-tmp_path` is -1
    if slash ∈ path then
      let dName ← lift (NameBuf.copy (tmpPath.text.take (tmpPath.text.length - fPtr.length - 1)))
      return (fName,dName)
    else undefined

/-! ## Path resolution -/

def strtok (path : List UInt8) : List (List UInt8) := (path.splitOn slash).filter (· ≠ [])

def walkPath : List (List UInt8) → UInt32 → ℤ → M (ℤ × UInt32)
  | [], curIno, _ => return (lab4Success,curIno)
  | filename :: rest, curIno, isdelete => do
    let (res,dirEntry,isdelete) ← lab4Lookup curIno DirEntry.zero filename isdelete
    if res = lab4Error then return (lab4Error,curIno)
    if res = -enoent then return (-enoent,curIno)
    walkPath rest dirEntry.dIno isdelete

/-- `lab4_read_inode` with the pointer it overwrites on success; the final null test looks at the
address of the pointer and never fires. -/
def lab4ReadInode (path : List UInt8) (inode : Option Inode) : M (ℤ × Option Inode) := do
  let m ← getIom
  if path = [slash] then return (lab4Success,← doReadInode m.sbi.rootIno)
  let tmpPath := stackPath path
  if tmpPath.cap ≤ tmpPath.text.length then undefined
  else
    let (res,curIno) ← walkPath (strtok tmpPath.text) m.sbi.rootIno 0
    if res = lab4Error then return (lab4Error,inode)
    if res = -enoent then return (-enoent,inode)
    return (lab4Success,← doReadInode curIno)

end SimpleFS
