import SimpleFS.Format

/-! # The FUSE operations: `fuse_main.c`, `do_fill_inode` and `do_utimens` -/
namespace SimpleFS
open Bytes Machine Prog

/-! ## Attributes -/

/-- The fields of `struct stat` that are filled; the device number by its major and minor part. -/
structure Stat where
  stMode : ℕ
  stNlink : ℕ
  stSize : ℤ
  stAtime : ℕ
  stMtime : ℕ
  stCtime : ℕ
  stGid : ℕ
  stUid : ℕ
  stRdev : ℕ × ℕ
deriving DecidableEq

def oldDecodeDev (val : ℕ) : ℕ × ℕ := ((val >>> 8) &&& 255,val &&& 255)

def newDecodeDev (dev : ℕ) : ℕ × ℕ := ((dev &&& 0xfff00) >>> 8,(dev &&& 0xff) ||| ((dev >>> 12) &&& 0xfff00))

def doFillInode (inode : Inode) : Stat where
  stMode := inode.iMode.toNat
  stNlink := inode.iLinksCount.toNat
  stSize := inode.iSize.toInt
  stAtime := inode.iAtime.toNat
  stMtime := inode.iMtime.toNat
  stCtime := inode.iCtime.toNat
  stGid := inode.iGid.toNat
  stUid := inode.iUid.toNat
  stRdev :=
    if inode.iMode.toNat &&& sIfmt = sIfchr ∨ inode.iMode.toNat &&& sIfmt = sIfblk then
      oldDecodeDev ((inode.iBlocks 0).toNat % 2^16)
    else newDecodeDev (inode.iBlocks 1).toNat

/-- The result and what the caller's `struct stat` holds afterwards. -/
def lab4Getattr (path : List UInt8) (stbuf : Stat) : M (ℤ × Stat) := do
  if doPathCheck path = lab4Error then return (lab4Error,stbuf)
  let (res,inode) ← lab4ReadInode path none
  if res = lab4Error then return (lab4Error,stbuf)
  if res = -enoent then return (-enoent,stbuf)
  match inode with
  | none => undefined
  | some inode => return (lab4Success,doFillInode inode)

/-- The result and what `filler` was called with. -/
def lab4Readdir (path : List UInt8) (offset : ℤ) : M (ℤ × List Filled) := do
  if doPathCheck path = lab4Error then return (lab4Error,[])
  let (res,dirInode) ← lab4ReadInode path none
  if res = lab4Error then return (lab4Error,[])
  if res = -enoent then return (-enoent,[])
  match dirInode with
  | none => undefined
  | some dirInode =>
    let (res,filled) ← doReaddir dirInode offset
    if res = lab4Error then return (lab4Error,filled)
    return (lab4Success,filled)

/-! ## Operations on paths -/

/-- The parent of a path and its last component, as every wrapper computes them. -/
def splitParent (path : List UInt8) : M (ℤ × Option Inode × NameBuf) := do
  let (fName,dName) ← getNameFromPath path
  let (res,dirInode) ← lab4ReadInode (← lift dName.cstr) none
  return (res,dirInode,fName)

/-- `lab4_mkdir` behind the lookup of the parent; `unlinkIn` and `rmdirIn` are those parts of their wrappers. -/
def mkdirIn (res : ℤ) (dirInode : Option Inode) (fName : NameBuf) : M ℤ := do
  if res = lab4Error then return lab4Error
  if res = -enoent then return -enoent
  let fName ← lift fName.cstr
  if fName.length < 1 ∨ fnameSize ≤ fName.length then return -enametoolong
  match dirInode with
  | none => undefined
  | some dirInode =>
    let res ← doMkdir dirInode fName
    if res = lab4Error then return res
    if res = -eexist then return res
    return lab4Success

def lab4Mkdir (path : List UInt8) : M ℤ := do
  if doPathCheck path = lab4Error then return lab4Error
  let (res,dirInode,fName) ← splitParent path
  mkdirIn res dirInode fName

def unlinkIn (res : ℤ) (dirInode : Option Inode) (fName : NameBuf) : M ℤ := do
  if res = lab4Error then return res
  if res = -enoent then return res
  match dirInode with
  | none => undefined
  | some dirInode => doUnlink dirInode (← lift fName.cstr)

def lab4Unlink (path : List UInt8) : M ℤ := do
  if doPathCheck path = lab4Error then return lab4Error
  let (res,dirInode,fName) ← splitParent path
  unlinkIn res dirInode fName

def rmdirIn (res : ℤ) (dirInode : Option Inode) (fName : NameBuf) : M ℤ := do
  if res = lab4Error then return lab4Error
  if res = -enoent then return -enoent
  match dirInode with
  | none => undefined
  | some dirInode =>
    let res ← doRmdir dirInode (← lift fName.cstr)
    if res = lab4Error then return lab4Error
    if res = -enoent then return -enoent
    if res = -enotempty then return -enotempty
    return lab4Success

def lab4Rmdir (path : List UInt8) : M ℤ := do
  if doPathCheck path = lab4Error then return lab4Error
  let (res,dirInode,fName) ← splitParent path
  rmdirIn res dirInode fName

def lab4Rename (fromPath toPath : List UInt8) : M ℤ := do
  if doPathCheck fromPath = lab4Error then return lab4Error
  if doPathCheck toPath = lab4Error then return lab4Error
  doRename fromPath toPath

/-- `lab4_open` and `lab4_create` differ in the mode they pass on; the second component is `fi->fh`
afterwards. -/
def openHandle (path : List UInt8) (flags mode : ℕ) (fh : ℤ) : M (ℤ × ℤ) := do
  let fd ← lab4DoOpen path flags mode
  if fd = lab4Error then return (-(← errno),fh)
  return (lab4Success,fd)

def lab4Open (path : List UInt8) (flags : ℕ) (fh : ℤ) : M (ℤ × ℤ) := openHandle path flags 0 fh

def lab4Create (path : List UInt8) (flags mode : ℕ) (fh : ℤ) : M (ℤ × ℤ) := openHandle path flags mode fh

/-- `do_read` and `do_write` get the handle as an `int` and do not look at it; the path is only checked. -/
def lab4Read (path : List UInt8) (buf : Mem) (size offset : ℕ) (fh : ℤ) : M (ℤ × Mem) := do
  if doPathCheck path = lab4Error then return (lab4Error,buf)
  if fh < 0 then undefined
  else doRead fh.toNat buf size offset

def lab4Write (path : List UInt8) (buf : Mem) (size offset : ℕ) (fh : ℤ) : M ℤ := do
  if doPathCheck path = lab4Error then return lab4Error
  if fh < 0 then undefined
  else doWrite fh.toNat buf size offset

def lab4Release (fh : ℤ) : M ℤ := do
  lab4DoClose fh
  return lab4Success

/-- The times go into a private copy of the record that nobody writes back. -/
def doUtimens (path : List UInt8) (atime mtime : ℤ) : M ℤ := do
  if path = [slash] then return lab4Success
  if doPathCheck path = lab4Error then return lab4Error
  let _ ← getNameFromPath path
  let (res,inode) ← lab4ReadInode path none
  if res = lab4Error then return lab4Error
  if res = -enoent then return -enoent
  match inode with
  | none => undefined
  | some inode =>
    let _copy := { inode with iAtime := UInt32.ofNat (toU32 atime), iMtime := UInt32.ofNat (toU32 mtime) }
    return lab4Success

def lab4Utimens (path : List UInt8) (atime mtime : ℤ) : M ℤ := do
  let res ← doUtimens path atime mtime
  if res = lab4Error then return -(← errno)
  return lab4Success

end SimpleFS
