import SimpleFS.Bmap

/-! # The inode table and the metadata clusters: `inode.c` -/
namespace SimpleFS
open Bytes Machine Prog

def Inode.zero : Inode := ⟨0,0,0,0,0,0,0,0,0,0,0,0,0,0,0,0,fun _ => 0,0,0⟩

/-! ## Block addresses -/

/-- The address of the first block as `lab4_lookup`, `check_dir_deletable`, `do_mkdir`, `lab4_createfile` and `do_rename`
read it. -/
def Inode.blocknr (v : Inode) : ℤ := toS32 (v.iBlocks 0).toNat

/-- The address of the first block as `do_readdir`, `do_write` and `do_read` read it. -/
def Inode.blocknrLong (v : Inode) : ℤ := (v.iBlocks 0).toNat

/-- The addresses as `delete_block` reads them, through a pointer to `int`. -/
def Inode.blockAt (v : Inode) (index : Fin 15) : ℤ := toS32 (v.iBlocks index).toNat

/-- `i_blocks[0]` of the record that `do_mkdir` makes for block `b`. -/
def Iom.mkdirAddr (m : Iom) (b : ℕ) : UInt32 :=
  UInt32.ofNat (m.superBlock.sbDareaStart.toNat * m.sbi.clusterSize + b * m.sbi.clusterSize)

/-- The address of block `b` in `do_write`. -/
def Iom.writeBlocknr (m : Iom) (b : ℕ) : ℕ := b * m.clusterSize + m.sbi.dareaStart

/-- `i_blocks[0]` of the record of an empty file after `do_write` has taken block `b` for it. -/
def Iom.writeAddr (m : Iom) (b : ℕ) : UInt32 := UInt32.ofNat (m.writeBlocknr b)

/-- The bit that `delete_block_inbmap` clears. -/
def Iom.blocknrInbmap (m : Iom) (v : Inode) : ℤ :=
  toS32 ((((v.iBlocks 0).toNat : ℤ) - m.sbi.dareaStart).tdiv m.sbi.clusterSize)

/-! ## Reading a record -/

/-- A private copy of a table record; there is no upper bound on the index. -/
def doReadInode (ino : UInt32) : M (Option Inode) := do
  if ino.toNat < lab4RootIno then return none
  if !(← malloc) then return none
  let m ← getIom
  if m.inodeNum ≤ ino.toNat then undefined
  else return some (m.inode ino.toNat)

/-! ## Metadata clusters to and from the device -/

def flushCluster (buf : Option Mem) (start : ℕ) : M ℤ := do
  match buf with
  | none => undefined
  | some b =>
    let m ← getIom
    let res ← pwrite b m.sbi.clusterSize start
    if res = lab4Error then return lab4Error
    return lab4Success

def updateSb : M ℤ := do
  let m ← getIom
  flushCluster (some m.sb) m.sbi.sbStart

def updateIbmap : M ℤ := do
  let m ← getIom
  flushCluster m.iomBufIbmap m.sbi.ibitmapStart

def updateDbmap : M ℤ := do
  let m ← getIom
  flushCluster m.iomBufDbmap m.sbi.dbitmapStart

def updateItble : M ℤ := do
  let m ← getIom
  flushCluster (some m.iomBufItble) m.sbi.itableStart

/-- All four metadata clusters, as every operation that changes the tree writes them. -/
def updateMetadata : M Unit := do
  let _ ← updateSb
  let _ ← updateIbmap
  let _ ← updateDbmap
  let _ ← updateItble

def reloadCluster (buf : Option Mem) (start : ℕ) (store : Iom → Mem → Iom) : M ℤ := do
  match buf with
  | none => undefined
  | some b =>
    let m ← getIom
    let (res,b') ← pread m.clusterSize b m.sbi.clusterSize start
    modifyIom (fun m => store m b')
    if res = lab4Error then return lab4Error
    return lab4Success

def restoreIbmap : M ℤ := do
  let m ← getIom
  reloadCluster m.iomBufIbmap m.sbi.ibitmapStart (fun m b => { m with iomBufIbmap := some b })

def restoreDbmap : M ℤ := do
  let m ← getIom
  reloadCluster m.iomBufDbmap m.sbi.dbitmapStart (fun m b => { m with iomBufDbmap := some b })

def restoreItble : M ℤ := do
  let m ← getIom
  reloadCluster (some m.iomBufItble) m.sbi.itableStart (fun m b => { m with iomBufItble := b })

def restoreData (buf : Mem) (size : ℕ) (blocknr : ℤ) : M Unit := do
  let _ ← pwrite buf size blocknr

/-! ## Table records -/

def allocNewInode : M (Option Inode) := do
  let m ← getIom
  let (res,newIno) ← scanAllocateIbmap m.sbi.lastAllocatedIno
  if res = lab4Error then return none
  -- the allocation is not checked before it is cleared
  if !(← malloc) then undefined
  else
    let newInode := { Inode.zero with iIno := UInt32.ofNat newIno, iDeleted := 0, iVersion := 1 }
    modifyIom (fun m => m.setSuperBlock { m.superBlock with sbLastAllocatedIno := UInt32.ofNat (newIno + 1) })
    modifyIom (fun m => { m with sbi := { m.sbi with lastAllocatedIno := (newIno + 1) % 2^32 } })
    decFreeInodes
    return some newInode

def writeInodeToItble (newInode : Inode) : M ℤ := do
  let m ← getIom
  let newInoPos := toS32 (newInode.iIno.toNat * lab4InodeEntrySize)
  if newInoPos > m.sbi.clusterSize then return lab4Error
  if m.inodeNum ≤ newInode.iIno.toNat then undefined
  else
    setIom (m.setInode newInode.iIno.toNat newInode)
    return lab4Success

def deleteInodeFromItble (delInode : Inode) : M ℤ := do
  let m ← getIom
  let delInoPos := toU32 (delInode.iIno.toNat * lab4InodeEntrySize)
  if delInoPos > m.sbi.clusterSize then return lab4Error
  if m.inodeNum ≤ delInode.iIno.toNat then undefined
  else
    setIom (m.setInode delInode.iIno.toNat Inode.zero)
    return lab4Success

/-- Only the first direct block is given back. -/
def deleteBlockInbmap (inode : Inode) : M Unit := do
  let m ← getIom
  scanDeleteDbmap (m.blocknrInbmap inode)
  incFreeBlocks

def deleteInode (delInode : Inode) : M ℤ := do
  scanDeleteIbmap delInode.iIno.toNat
  let res ← deleteInodeFromItble delInode
  if res = lab4Error then return lab4Error
  incFreeInodes
  return lab4Success

def bumpLink (f : UInt32 → UInt32) (parIno : UInt32) : M Unit := do
  let m ← getIom
  if m.inodeNum ≤ parIno.toNat then undefined
  else
    let v := m.inode parIno.toNat
    setIom (m.setInode parIno.toNat { v with iLinksCount := f v.iLinksCount })

def incLink (parIno : UInt32) : M Unit := bumpLink (· + 1) parIno
def decLink (parIno : UInt32) : M Unit := bumpLink (· - 1) parIno

end SimpleFS
