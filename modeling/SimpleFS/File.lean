import SimpleFS.Dir

/-! # File operations: `file.c` -/
namespace SimpleFS
open Bytes Machine Prog

/-! ## The open file table -/

/-- The scan of `lab4_allocate_open_file_table` over `count` slots from `i` on. -/
def unusedSlot (fileTable : ℕ → FileTable) : ℕ → ℕ → ℤ
  | 0, _ => -1
  | count + 1, i => if (fileTable i).used = false then i else unusedSlot fileTable count (i + 1)

def lab4AllocateOpenFileTable : M ℤ := do
  let m ← getIom
  return unusedSlot m.sbi.fileTable (maxOpenFile - startOpenFile) startOpenFile

/-- `SEEK_SET`, `SEEK_CUR` and `SEEK_END`. -/
inductive Whence
  | set
  | cur
  | last

def lab4Seek (ft : FileTable) (offset : ℤ) : Whence → FileTable
  | .set => { ft with rwoffset := offset }
  | .cur => { ft with rwoffset := ft.rwoffset + offset }
  | .last => { ft with rwoffset := ft.size - offset }

def lab4DoClose (fid : ℤ) : M Unit := do
  if fid < 0 ∨ (maxOpenFile : ℤ) ≤ fid then undefined
  else modifyIom (fun m => m.setFile fid.toNat FileTable.empty)

/-! ## Creation and opening -/

/-- The pointer `*new_inode_ptr` is set on the last path only, yet the error paths behind the inode
allocation also return success. -/
def lab4Createfile (parentInode : Inode) (filename : List UInt8) (mode : ℕ) : M (ℤ × Option Inode) := do
  if filename.length < 1 ∨ fnameSize ≤ filename.length then return (-enametoolong,none)
  let (res,_,_) ← lab4Lookup parentInode.iIno DirEntry.zero filename 0
  if res = lab4Success then return (-eexist,none)
  if parentInode.iLinksCount = maxFilesPerDir then return (lab4Error,none)
  match ← allocNewInode with
  | none =>
    let _ ← restoreIbmap
    return (lab4Error,none)
  | some newInode =>
    let newInode := { newInode with
      iType := lab4TypeFile
      iSize := 0
      iMode := UInt16.ofNat mode
      iGid := ← getgid
      iUid := ← getuid
      iLinksCount := 1
      iAtime := ← timeNull
      iCtime := ← timeNull
      iMtime := ← timeNull }
    let parentDirSize := parentInode.iSize
    let parentDirBlocknr := parentInode.blocknr
    if !(← malloc) then return (lab4Success,none)
    let dirNewEntry := DirEntry.used newInode.iIno newInode.iVersion filename
    if !(← malloc) then return (lab4Success,none)
    let m ← getIom
    let clusterSize := m.sbi.clusterSize
    let (res,bufParentDirArea) ← pread clusterSize zeros parentDirSize.toUInt64.toNat parentDirBlocknr
    if res = lab4Error then return (lab4Success,none)
    let (_,i) ← lift (slotLoop freeTest parentDirSize.toInt bufParentDirArea (clusterSize / lab4DirEntrySize) 0)
    let newInode := { newInode with iPtr := UInt32.ofNat i }
    let res ← writeInodeToItble newInode
    if res = lab4Error then
      let _ ← restoreItble
      return (lab4Success,none)
    let _ ← pwrite (dirEntryCodec.enc dirNewEntry) lab4DirEntrySize (parentDirBlocknr + (lab4DirEntrySize * i : ℕ))
    -- `alloc_new_inode` has counted this inode already
    decFreeInodes
    let _ ← updateSb
    let _ ← updateIbmap
    let _ ← updateItble
    return (lab4Success,some newInode)

/-- The inode `do_openfile` goes on with: the one the entry names or a new one. An error is the value it
returns at once. -/
def findOrCreate (parentInode : Inode) (filename : List UInt8) (flags mode : ℕ) : M (Except ℤ (Option Inode)) := do
  let (res,fileEntry,_) ← lab4Lookup parentInode.iIno DirEntry.zero filename 0
  if res = lab4Error then return .error res
  if res = -enoent then
    if flags &&& oRdwr ≠ 0 ∨ flags &&& oCreat ≠ 0 then
      let (res,fileInode) ← lab4Createfile parentInode filename mode
      if res = lab4Error then return .error res
      return .ok fileInode
    return .error (-1)
  return .ok (← doReadInode fileEntry.dIno)

def openedFile (fileInode : Inode) (flags : ℕ) : FileTable :=
  let ft : FileTable := ⟨fileInode.iIno,fileInode.iSize.toInt,true,0,flags⟩
  if oAppend &&& flags ≠ 0 then lab4Seek ft fileInode.iSize.toInt .set else lab4Seek ft 0 .set

def doOpenfile (parentInode : Inode) (filename : List UInt8) (flags mode : ℕ) : M ℤ := do
  match ← findOrCreate parentInode filename flags mode with
  | .error res => return res
  | .ok none => undefined
  | .ok (some fileInode) =>
    if fileInode.iType ≠ lab4TypeFile then return -1
    let fid ← lab4AllocateOpenFileTable
    if fid < 0 then return fid
    modifyIom (fun m => m.setFile fid.toNat (openedFile fileInode flags))
    return fid

def lab4DoOpen (path : List UInt8) (flags mode : ℕ) : M ℤ := do
  if doPathCheck path = lab4Error then return lab4Error
  let (fName,dName) ← getNameFromPath path
  let (res,parentInode) ← lab4ReadInode (← lift dName.cstr) none
  if res = -enoent then return res
  if res = lab4Error then return res
  match parentInode with
  | none => undefined
  | some parentInode => doOpenfile parentInode (← lift fName.cstr) flags mode

/-! ## Removal -/

/-- Entry `index` of a pointer block, read as `int`. -/
def pointerAt (buf : Mem) (index : ℕ) : ℤ := toS32 (u32.get buf (4 * index)).toNat

/-- The zeroing loop over the entries of a pointer block; it runs one entry past its end, where the
read is outside the buffer. -/
def zeroPointed (clusterSize : ℕ) (buf : Mem) : ℕ → ℕ → M ℤ
  | 0, _ => undefined
  | left + 1, index => do
    if pointerAt buf index ≠ 0 then
      let res ← pwrite zeros clusterSize (pointerAt buf index)
      if res = lab4Error then return res
      zeroPointed clusterSize buf left (index + 1)
    else zeroPointed clusterSize buf left (index + 1)

/-- `_delete_block`; every sibling is visited with a depth one smaller than the one before. -/
def deleteBlockTree : ℕ → ℕ → ℤ → M ℤ
  | 0, _, _ => undefined
  | fuel + 1, blocknr, depth => do
    let m ← getIom
    let clusterSize := m.clusterSize
    let (res,bufBlock) ← pread clusterSize zeros clusterSize blocknr
    if res = lab4Error then return res
    if depth ≠ 0 then
      let _ ← (List.range (clusterSize / 4)).foldlM (fun depth index => do
        let _ ← deleteBlockTree fuel (toU32 (pointerAt bufBlock index)) (depth - 1)
        return depth - 1) depth
      return lab4Success
    zeroPointed clusterSize bufBlock (clusterSize / 4) 0

/-- The direct blocks in index order; a failing write ends the loop. -/
def deleteDirect (clusterSize : ℕ) (delInode : Inode) : List (Fin 15) → M ℤ
  | [] => return lab4Success
  | index :: rest => do
    if delInode.blockAt index ≠ 0 then
      let res ← pwrite zeros clusterSize (delInode.blockAt index)
      if res = lab4Error then return res
      deleteDirect clusterSize delInode rest
    else deleteDirect clusterSize delInode rest

def deleteIndirect (delInode : Inode) (index : Fin 15) (type : ℤ) : M Unit := do
  if delInode.iBlocks index ≠ 0 then
    let e ← Prog.env
    let _ ← deleteBlockTree e.fuel (delInode.iBlocks index).toNat type

def deleteBlock (delInode : Inode) : M ℤ := do
  let m ← getIom
  let res ← deleteDirect m.clusterSize delInode [0,1,2,3,4,5,6,7,8,9,10,11]
  if res = lab4Error then return res
  deleteIndirect delInode 12 1
  deleteIndirect delInode 13 2
  deleteIndirect delInode 14 3
  return lab4Success

/-- The block of `do_unlink` under `i_size != 0`. -/
def unlinkData (delInode : Inode) : M ℤ := do
  if delInode.iSize = 0 then return lab4Success
  deleteBlockInbmap delInode
  let res ← deleteBlock delInode
  if res = lab4Error then
    let _ ← restoreDbmap
    return lab4Error
  return lab4Success

/-- The block of `do_unlink` under `i_links_count == 0`. -/
def unlinkInode (delInode : Inode) : M ℤ := do
  if delInode.iLinksCount ≠ 0 then return lab4Success
  let res ← unlinkData delInode
  if res = lab4Error then return lab4Error
  let res ← deleteInode delInode
  if res = lab4Error then
    let _ ← restoreIbmap
    return lab4Error
  return lab4Success

def doUnlink (parentInode : Inode) (filename : List UInt8) : M ℤ := do
  let (res,delEntry,isdelete) ← lab4Lookup parentInode.iIno DirEntry.zero filename 1
  if res = lab4Error then return lab4Error
  if res = -enoent then return -enoent
  match ← doReadInode delEntry.dIno with
  | none => return lab4Error
  | some delInode =>
    let res ← unlinkInode { delInode with iLinksCount := delInode.iLinksCount - 1 }
    if res = lab4Error then return lab4Error
    writeBackEntry parentInode delEntry isdelete
    updateMetadata
    return lab4Success

/-! ## Writing -/

/-- `strncpy` of `size` bytes into a zeroed cluster: the bytes before the first NUL. Of a longer copy the rest lands
behind the cluster, which the model does not hold. -/
def strncpyBuf (buf : Mem) (size : ℕ) : Mem :=
  fun i => if i < size ∧ ∀ j ≤ i, buf j ≠ 0 then buf i else 0

/-- That copy: the buffer has one cluster, and `strncpy` writes all `size` bytes. -/
def writeCopy (m : Iom) (size : ℕ) : Copy := ⟨m.clusterSize,size⟩

/-- The loop of `do_write`: `none` is the jump to the error label. -/
def writeLoop (fid : ℕ) (buf : Mem) (offset : ℕ) (blocknr : ℤ) : ℕ → ℕ → Inode → ℤ → M (Option (Inode × ℤ))
  | 0, size, inode, wByte => if size = 0 then return some (inode,wByte) else undefined
  | fuel + 1, size, inode, wByte => do
    if size = 0 then return some (inode,wByte)
    let m ← getIom
    let clusterSize := m.clusterSize
    let ft := m.sbi.fileTable fid
    let curRemain := toU32 (clusterSize - offset)
    let curRemain := if curRemain > size then size else curRemain
    if inode.iSize.toInt ≤ ft.rwoffset then
      let wByte ← pwrite buf curRemain blocknr
      if wByte = lab4Error then return none
      let rwoffset := ft.rwoffset + curRemain
      let ftSize := if rwoffset > ft.size then rwoffset else ft.size
      modifyIom (fun m => m.setFile fid { ft with rwoffset := rwoffset, size := ftSize })
      writeLoop fid buf offset blocknr fuel (size - curRemain) { inode with iSize := Int64.ofInt ftSize } wByte
    else
      -- neither the allocation nor the length of the copy is checked, and a copy that is too long goes on
      if !(← malloc) then undefined
      else
        let wByte ← pwrite (strncpyBuf buf size) clusterSize blocknr
        if wByte = lab4Error then return none
        modifyIom (fun m => m.setFile fid { ft with rwoffset := curRemain, size := curRemain })
        writeLoop fid buf offset blocknr fuel (size - curRemain) { inode with iSize := Int64.ofInt curRemain } wByte

/-- The rest of `do_write` once the block address is known. -/
def writeBlock (fid : ℕ) (buf : Mem) (size offset : ℕ) (inode : Inode) (blocknr : ℤ) : M ℤ := do
  let e ← Prog.env
  let wByte ← indeterminate
  match ← writeLoop fid buf offset (blocknr + offset) e.fuel size inode wByte with
  | none => return lab4Error
  | some (inode,wByte) =>
    let res ← writeInodeToItble inode
    if res = lab4Error then return lab4Error
    let _ ← updateSb
    let _ ← updateItble
    let _ ← updateDbmap
    return wByte

def doWrite (fid : ℕ) (buf : Mem) (size offset : ℕ) : M ℤ := do
  let m ← getIom
  if maxOpenFile ≤ fid then undefined
  else
    modifyIom (fun m => m.setFile fid { m.sbi.fileTable fid with rwoffset := offset })
    match ← doReadInode (m.sbi.fileTable fid).ino with
    | none => return lab4Error
    | some inode =>
      if inode.iSize = 0 then
        let (res,blocknrInbmap) ← allocBlockInbmap
        if res = lab4Error then
          let _ ← restoreDbmap
          return lab4Error
        writeBlock fid buf size offset
          { inode with iBlocks := Function.update inode.iBlocks 0 (m.writeAddr blocknrInbmap) } (m.writeBlocknr blocknrInbmap)
      else writeBlock fid buf size offset inode inode.blocknrLong

/-! ## Reading -/

/-- The number of bytes before the first NUL among the first `size`. -/
def textLen (buf : Mem) (size : ℕ) : ℕ := Nat.find (⟨size,.inl rfl⟩ : ∃ i, i = size ∨ buf i = 0)

/-- `strlen` of an allocation of `cap` bytes; without a NUL inside it runs out of the allocation. -/
def strlen (cap : ℕ) (buf : Mem) : Option ℕ := if textLen buf cap < cap then some (textLen buf cap) else none

/-- The loop of `do_read`. Every round reads from the start of the block into the cleared buffer and
ignores whether that failed; `r_byte` is the length of the text it found. -/
def readLoop (fid : ℕ) (inode : Inode) (blocknr : ℤ) : ℕ → ℕ → Mem → ℤ → M (ℤ × Mem)
  | 0, _, _, _ => undefined
  | fuel + 1, size, buf, rByte => do
    let m ← getIom
    let clusterSize := m.clusterSize
    let ft := m.sbi.fileTable fid
    if size = 0 ∨ inode.iSize.toInt ≤ ft.rwoffset then return (rByte,buf)
    let (_,bufRead) ← pread clusterSize zeros size blocknr
    let rByte ← lift (strlen clusterSize bufRead)
    let buf := splice buf 0 rByte bufRead
    let curOffset := ft.rwoffset % lab4ClusterSize
    let curRemain := lab4ClusterSize - curOffset.toNat
    let curRemain := if curRemain > size then size else curRemain
    modifyIom (fun m => m.setFile fid { ft with rwoffset := ft.rwoffset + curRemain })
    readLoop fid inode blocknr fuel (size - curRemain) buf rByte

/-- The result and the caller's buffer afterwards. `r_byte` is not initialised. -/
def doRead (fid : ℕ) (buf : Mem) (size offset : ℕ) : M (ℤ × Mem) := do
  let m ← getIom
  if maxOpenFile ≤ fid then undefined
  else
    modifyIom (fun m => m.setFile fid { m.sbi.fileTable fid with rwoffset := offset })
    match ← doReadInode (m.sbi.fileTable fid).ino with
    | none => return (lab4Error,buf)
    | some inode =>
      if inode.iSize = 0 then return (0,buf)
      if !(← malloc) then undefined
      else
        let e ← Prog.env
        let rByte ← indeterminate
        readLoop fid inode inode.blocknrLong e.fuel size buf rByte

end SimpleFS
