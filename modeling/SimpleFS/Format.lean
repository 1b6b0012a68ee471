import SimpleFS.File

/-! # Formatting and mounting: `fsformat.c`, `mount.c` -/
namespace SimpleFS
open Bytes Machine Prog

/-! ## The io manager of a device -/

def SbInfo.zero : SbInfo :=
  ⟨0,0,0,0,0,0,0,0,0,0,0,0,0,0,0,0,0,0,0,0,0,0,0,0,fun _ => FileTable.empty⟩

def SuperBlock.zero : SuperBlock := ⟨0,0,0,0,0,0,0,0,0,0,0,0,0,0,0,0,0,0,0,0,0,0,0,0,0,0,0,0,0,0,0⟩

/-- A zeroed `struct io_manager` after `get_no_of_sectors`. -/
def openDevice (d : Device) : Iom where
  dev := d
  noOfSectors := toS32 d.blkgetsize
  blkSize := (toS32 d.blksszget).toNat
  clusterSize := (toS32 ((d.blksszget : ℤ) * 2^3)).toNat
  sb := zeros
  sbi := SbInfo.zero
  iomBufIbmap := none
  iomBufDbmap := none
  iomBufItble := zeros

/-! ## Format -/

/-- Reserving the first inodes: the bit is set and the counter drops. -/
def reserveInodes : List ℕ → Mem × SuperBlock → Mem × SuperBlock
  | [], p => p
  | ino :: rest, (bufIbmap,sb) =>
    reserveInodes rest ((lab4SetBit ino bufIbmap).2,{ sb with sbFreeInodes := sb.sbFreeInodes - 1 })

def rootInode (sb : SuperBlock) (clusterSize : ℕ) (uid gid : UInt16) (atime ctime mtime : UInt32) : Inode :=
  { Inode.zero with
    iIno := UInt32.ofNat lab4RootIno
    iType := lab4TypeDirectory
    iSize := Int64.ofNat (lab4DirEntrySize * lab4DirEntryNum)
    iVersion := 1
    iPtr := 1
    iGid := gid
    iUid := uid
    iMode := UInt16.ofNat (0o755 ||| sIfdir)
    iAtime := atime
    iCtime := ctime
    iMtime := mtime
    iLinksCount := 2
    iBlocks := fun i => if i = 0 then UInt32.ofNat (sb.sbDareaStart.toNat * clusterSize) else 0 }

/-- The table of the three reserved records over zeroed memory. -/
def rootTable (root : Inode) : Mem :=
  inodeCodec.put (inodeCodec.put (inodeCodec.put zeros 0 { Inode.zero with iIno := 0 })
    lab4InodeEntrySize { Inode.zero with iIno := 1 }) (lab4RootIno * lab4InodeEntrySize) root

structure ReservedBufs where
  sb : SuperBlock
  ibmap : Mem
  dbmap : Mem
  itble : Mem
  darea : Mem

def lab4AllocRootInodeDirect (sb : SuperBlock) (clusterSize : ℕ) : M ReservedBufs := do
  let (bufIbmap,sb) := reserveInodes (List.range lab4NumResvIno) (zeros,sb)
  let bufDbmap := (lab4SetBit 0 zeros).2
  let gid ← getgid
  let uid ← getuid
  let atime ← timeNull
  let ctime ← timeNull
  let mtime ← timeNull
  let root := rootInode sb clusterSize uid gid atime ctime mtime
  return ⟨sb,bufIbmap,bufDbmap,rootTable root,newDirArea (UInt32.ofNat lab4RootIno) (UInt32.ofNat lab4RootIno)⟩

/-- The super block before the root directory is made. -/
def formatSb (m : Iom) : SuperBlock :=
  let dareaSize : ℕ := toU32 ((m.noOfSectors * m.blkSize).tdiv m.clusterSize - 4)
  { SuperBlock.zero with
    sbSignature := lab4SbSignature
    sbStudentId := lab4SbStdId
    sbNoOfSectors := Int64.ofInt m.noOfSectors
    sbSectorSize := Int64.ofNat m.blkSize
    sbBlockSizeShift := 3
    sbReserved := 4
    sbSbStart := 0
    sbSbSize := 1
    sbIbitmapStart := 1
    sbIbitmapSize := 1
    sbDbitmapStart := 2
    sbDbitmapSize := 1
    sbItableStart := 3
    sbItableSize := 1
    sbDareaStart := 4
    sbDareaSize := UInt32.ofNat dareaSize
    sbFreeInodes := Int32.ofNat (m.clusterSize / lab4InodeEntrySize)
    sbFreeBlocks := Int64.ofNat dareaSize
    sbInodeSize := UInt32.ofNat lab4InodeEntrySize
    sbDirentrySize := UInt32.ofNat lab4DirEntrySize
    sbLastAllocatedIno := UInt32.ofNat (lab4RootIno + 1)
    sbLastAllocatedBlknr := 1
    sbReservedIno := UInt32.ofNat lab4NumResvIno
    sbRootIno := UInt32.ofNat lab4RootIno }

/-- `count` allocations that are cleared before they are checked. -/
def mallocs : ℕ → M Unit
  | 0 => return ()
  | count + 1 => do
    if !(← malloc) then undefined
    else mallocs count

/-- The results of the five writes are printed, not checked. -/
def formatDeviceToLab : M ℤ := do
  mallocs 5
  let m ← getIom
  let clusterSize := m.clusterSize
  let r ← lab4AllocRootInodeDirect (formatSb m) clusterSize
  let m := { m with sb := zeros }.setSuperBlock { r.sb with sbUmount := 1 }
  setIom m
  let _ ← pwrite m.sb clusterSize 0
  let _ ← pwrite r.ibmap clusterSize (1 * clusterSize : ℕ)
  let _ ← pwrite r.dbmap clusterSize (2 * clusterSize : ℕ)
  let _ ← pwrite r.itble clusterSize (3 * clusterSize : ℕ)
  let _ ← pwrite r.darea clusterSize (4 * clusterSize : ℕ)
  return lab4Success

def mkfs : M ℤ := do
  modifyIom (fun m => openDevice m.dev)
  formatDeviceToLab

/-! ## Mount -/

/-- One metadata cluster into a fresh allocation; neither the allocation nor the read is checked. -/
def readCluster (pos : ℕ) : M (Option Mem) := do
  let m ← getIom
  let e ← Prog.env
  if !(← malloc) then return none
  let (_,buf) ← pread m.clusterSize (e.heap pos) m.clusterSize (pos * m.clusterSize : ℕ)
  return some buf

/-- `check_formated` behind the opening of the device: true when it returns the io manager. -/
def checkFormated : M Bool := do
  modifyIom (fun m => openDevice m.dev)
  if !(← malloc) then return false
  let m ← getIom
  let e ← Prog.env
  let (res,bufSb) ← pread m.clusterSize (e.heap 0) m.clusterSize 0
  if res = lab4Error then return false
  modifyIom (fun m => { m with sb := bufSb })
  let m ← getIom
  if m.superBlock.sbSignature = lab4SbSignature then
    let bufIbmap ← readCluster 1
    modifyIom (fun m => { m with iomBufIbmap := bufIbmap })
    let bufDbmap ← readCluster 2
    modifyIom (fun m => { m with iomBufDbmap := bufDbmap })
    match ← readCluster 3 with
    | none => undefined
    | some bufItble =>
      modifyIom (fun m => { m with iomBufItble := bufItble })
      return true
  return false

/-- A layout field in bytes, in the unsigned arithmetic of the assignment. -/
def inBytes (clusters : UInt32) (clusterSize : ℤ) : ℕ := toU32 (clusters.toNat * clusterSize)

/-- The assignments of `lab4_fill_super`. The two free counters are not copied: they keep what the
allocation held. -/
def SbInfo.ofSuperBlock (sb : SuperBlock) (freeInodes freeBlocks : ℤ) : SbInfo :=
  let long : ℤ := sb.sbSectorSize.toInt * 2^sb.sbBlockSizeShift.toInt.toNat
  let clusterSize := toS32 long
  { studentId := sb.sbStudentId
    sectorSize := sb.sbSectorSize.toInt
    clusterSize := long.toNat
    noOfSectors := sb.sbNoOfSectors.toInt
    noOfUsedBlocks := sb.sbNoOfUsedBlocks.toInt
    rootIno := sb.sbRootIno
    reservedIno := sb.sbReservedIno
    reserved := sb.sbReserved.toNat
    sbStart := inBytes sb.sbSbStart clusterSize
    sbSize := inBytes sb.sbSbSize clusterSize
    ibitmapStart := inBytes sb.sbIbitmapStart clusterSize
    ibitmapSize := inBytes sb.sbIbitmapSize clusterSize
    dbitmapStart := inBytes sb.sbDbitmapStart clusterSize
    dbitmapSize := inBytes sb.sbDbitmapSize clusterSize
    itableStart := inBytes sb.sbItableStart clusterSize
    itableSize := inBytes sb.sbItableSize clusterSize
    dareaStart := inBytes sb.sbDareaStart clusterSize
    dareaSize := inBytes sb.sbDareaSize clusterSize
    sbFreeInodes := toS32 freeInodes
    sbFreeBlocks := freeBlocks.bmod (2^64)
    inodeSize := sb.sbInodeSize.toNat
    direntrySize := sb.sbDirentrySize.toNat
    lastAllocatedIno := sb.sbLastAllocatedIno.toNat
    lastAllocatedBlknr := sb.sbLastAllocatedBlknr.toNat
    fileTable := fun _ => FileTable.empty }

def lab4FillSuper : M ℤ := do
  if !(← malloc) then undefined
  else
    let m ← getIom
    let freeInodes ← indeterminate
    let freeBlocks ← indeterminate
    if !(← malloc) then return lab4Error
    modifyIom (fun m' => { m' with sbi := SbInfo.ofSuperBlock m.superBlock freeInodes freeBlocks })
    return lab4Success

/-- What `main` and `lab4_init` do with a device that is formatted. -/
def mount : M Bool := do
  if !(← checkFormated) then return false
  let res ← lab4FillSuper
  return decide (res = lab4Success)

/-- A new file system, mounted. -/
def formatAndMount : M Bool := do
  let _ ← mkfs
  mount

end SimpleFS
