import SimpleFS.Lookup

/-! # Directory operations: `dir.c` -/
namespace SimpleFS
open Bytes Machine Prog

/-- The name of the entry for the directory itself and of the one for its parent. -/
def dotName : List UInt8 := [46]
def dotdotName : List UInt8 := [46,46]

/-! ## Listing -/

/-- What `filler` is called with. -/
structure Filled where
  name : List UInt8
  stIno : UInt32
  stMode : ℕ
  stNlink : ℕ
deriving DecidableEq

def dtDir : ℕ := 4
def dtReg : ℕ := 8

/-- The listing loop; the byte position and the entry pointer advance together but start apart when
`offset` is not zero. `left` slots of the buffer remain. -/
def readdirLoop (dirSize : ℤ) (buf : Mem) : ℕ → ℤ → ℕ → M (List Filled)
  | 0, readBytes, _ => if readBytes < dirSize then undefined else return []
  | left + 1, readBytes, j => do
    if readBytes < dirSize then
      let dirEntry := entryAt buf j
      if dirEntry.dFlag = lab4DirUsed then
        match ← doReadInode dirEntry.dIno with
        | none => undefined
        | some entryInode =>
          if fnameSize ≤ (cstr dirEntry.dFilename).length then undefined
          else
            let mode := if entryInode.iType = lab4TypeDirectory then dtDir <<< 12 else dtReg <<< 12
            let rest ← readdirLoop dirSize buf left (readBytes + lab4DirEntrySize) (j + 1)
            return ⟨cstr dirEntry.dFilename,dirEntry.dIno,mode,2⟩ :: rest
      else readdirLoop dirSize buf left (readBytes + lab4DirEntrySize) (j + 1)
    else return []

def doReaddir (dirInode : Inode) (offset : ℤ) : M (ℤ × List Filled) := do
  let dirSize := dirInode.iSize.toInt
  let cap := dirInode.iSize.toUInt64.toNat
  let start := offset * lab4DirEntrySize
  if !(← malloc) then return (lab4Error,[])
  let (res,bufDirEntry) ← pread cap zeros cap dirInode.blocknrLong
  if res = lab4Error then return (lab4Error,[])
  let filled ← readdirLoop dirSize bufDirEntry (cap / lab4DirEntrySize) (toS32 start) 0
  return (lab4Success,filled)

/-! ## Creation -/

/-- A used entry over zeroed memory. -/
def DirEntry.used (ino : UInt32) (version : UInt32) (name : List UInt8) : DirEntry :=
  ⟨ino,lab4DirUsed,version,strcpyName name⟩

/-- The cluster of an empty directory: its own entry, its parent's, zeros. -/
def newDirArea (ino parIno : UInt32) : Mem :=
  dirEntryCodec.put (dirEntryCodec.put zeros 0 (DirEntry.used ino 0 dotName))
    lab4DirEntrySize (DirEntry.used parIno 0 dotdotName)

def doMkdir (parentInode : Inode) (name : List UInt8) : M ℤ := do
  let (res,_,_) ← lab4Lookup parentInode.iIno DirEntry.zero name 0
  if res = lab4Success then return -eexist
  match ← allocNewInode with
  | none =>
    let _ ← restoreIbmap
    return lab4Error
  | some newInode =>
    let (res,blocknrInbmap) ← allocBlockInbmap
    if res = lab4Error then
      let _ ← restoreDbmap
      return lab4Error
    if !(← malloc) then return lab4Error
    let bufNewDirArea := newDirArea newInode.iIno parentInode.iIno
    modifyIom (fun m => m.setSuperBlock { m.superBlock with sbLastAllocatedBlknr := UInt32.ofNat blocknrInbmap })
    let m ← getIom
    let clusterSize := m.sbi.clusterSize
    let newInode := { newInode with
      iType := lab4TypeDirectory
      iSize := Int64.ofNat (lab4DirEntrySize * lab4DirEntryNum)
      iVersion := 1
      iPtr := 1
      iGid := ← getgid
      iUid := ← getuid
      iMode := UInt16.ofNat (0o755 ||| sIfdir)
      iAtime := ← timeNull
      iCtime := ← timeNull
      iMtime := ← timeNull
      iLinksCount := 2
      iBlocks := Function.update newInode.iBlocks 0 (m.mkdirAddr blocknrInbmap) }
    let parentDirSize := parentInode.iSize
    let parentDirBlocknr := parentInode.blocknr
    if !(← malloc) then return lab4Error
    if fnameSize ≤ name.length then undefined
    else
      let dirNewEntry := DirEntry.used newInode.iIno 0 name
      if !(← malloc) then return lab4Error
      let (res,bufParentDirArea) ← pread clusterSize zeros parentDirSize.toUInt64.toNat parentDirBlocknr
      if res = lab4Error then return lab4Error
      let (_,i) ← lift (slotLoop freeTest parentDirSize.toInt bufParentDirArea (clusterSize / lab4DirEntrySize) 0)
      let newInode := { newInode with iPtr := UInt32.ofNat i }
      let res ← writeInodeToItble newInode
      if res = lab4Error then
        let _ ← restoreItble
        return lab4Error
      let _ ← pwrite (dirEntryCodec.enc dirNewEntry) lab4DirEntrySize (parentDirBlocknr + (lab4DirEntrySize * i : ℕ))
      let _ ← pwrite bufNewDirArea clusterSize ((blocknrInbmap * clusterSize + m.sbi.dareaStart : ℕ))
      incLink parentInode.iIno
      updateMetadata
      return lab4Success

/-! ## Removal -/

def checkDirDeletable (delInode : Inode) : M ℤ := do
  if !(← malloc) then return lab4Error
  let m ← getIom
  let dirSize := delInode.iSize.toInt
  let (res,bufDirEntry) ← pread m.clusterSize zeros m.clusterSize delInode.blocknr
  if res = lab4Error then return lab4Error
  let (found,_) ← lift (slotLoop usedTest dirSize bufDirEntry (m.clusterSize / lab4DirEntrySize - 2) 2)
  if found = true then return -enotempty
  return lab4Success

/-- `blocks[0] + isdelete` in unsigned arithmetic, as the `pwrite` of a directory entry computes it. -/
def entryOffset (dirInode : Inode) (isdelete : ℤ) : ℤ := toU32 ((dirInode.iBlocks 0).toNat + isdelete)

/-- The entry a lookup has marked deleted goes back to its slot. -/
def writeBackEntry (dirInode : Inode) (delEntry : DirEntry) (isdelete : ℤ) : M Unit := do
  if isdelete ≠ -1 then
    let _ ← pwrite (dirEntryCodec.enc delEntry) lab4DirEntrySize (entryOffset dirInode isdelete)

def doRmdir (parentInode : Inode) (filename : List UInt8) : M ℤ := do
  let m ← getIom
  let clusterSize := m.sbi.clusterSize
  let (res,delEntry,isdelete) ← lab4Lookup parentInode.iIno DirEntry.zero filename 1
  if res = lab4Error then return lab4Error
  if res = -enoent then return -enoent
  match ← doReadInode delEntry.dIno with
  | none =>
    let _ ← restoreIbmap
    let _ ← restoreItble
    return lab4Error
  | some delInode =>
    let res ← checkDirDeletable delInode
    if res = lab4Error then return lab4Error
    if res = -enotempty then return -enotempty
    let res ← deleteInode delInode
    if res = lab4Error then return lab4Error
    deleteBlockInbmap delInode
    -- neither buffer is checked before it is cleared
    if !(← malloc) then undefined
    else if !(← malloc) then undefined
    else
      let blocknr : ℤ := (delInode.iBlocks 0).toNat
      let (res,bufBackup) ← pread clusterSize zeros clusterSize blocknr
      if res = lab4Error then
        let _ ← restoreDbmap
        let _ ← restoreIbmap
        let _ ← restoreItble
        return lab4Error
      let res ← pwrite zeros clusterSize blocknr
      if res = lab4Error then
        restoreData bufBackup clusterSize blocknr
        let _ ← restoreDbmap
        let _ ← restoreIbmap
        let _ ← restoreItble
        return lab4Error
      writeBackEntry parentInode delEntry isdelete
      decLink parentInode.iIno
      updateMetadata
      return lab4Success

/-! ## Rename -/

/-- The write inside the slot loop of `do_rename`; a full directory is passed over in silence. -/
def insertEntry (dirInode : Inode) (entry : DirEntry) (found : Bool) (i : ℕ) : M Unit := do
  if found = true then
    let _ ← pwrite (dirEntryCodec.enc entry) lab4DirEntrySize ((dirInode.iBlocks 0).toNat + (lab4DirEntrySize * i : ℕ))

/-- The second half of `do_rename`: the target is a directory that is not the source's parent, or `to`
itself exists. The entry moves with the name it had. -/
def renameInto (delDirInode : Inode) (delEntry : DirEntry) (isdelete : ℤ) (renameDirInode : Inode)
    (fName : List UInt8) : M ℤ := do
  if renameDirInode.iType = lab4TypeDirectory then
    let renameEntry := { delEntry with dFlag := lab4DirUsed }
    let (res,tmpEntry,_) ← lab4Lookup renameDirInode.iIno DirEntry.zero fName 0
    if res = lab4Error then return res
    if tmpEntry.dIno ≠ 0 then return -eexist
    if res = -enoent then
      if !(← malloc) then return lab4Error
      let m ← getIom
      let dirSize := renameDirInode.iSize.toInt
      let (res,bufDirEntry) ← pread m.clusterSize zeros m.clusterSize renameDirInode.blocknr
      if res = lab4Error then return lab4Error
      let (found,i) ← lift (slotLoop freeTest dirSize bufDirEntry (m.clusterSize / lab4DirEntrySize) 0)
      insertEntry renameDirInode renameEntry found i
      writeBackEntry delDirInode delEntry isdelete
      return lab4Success
    return -eexist
  return -eexist

/-- `do_rename` once the source entry is known. A target that does not exist is looked for again in its
parent; the result of that second walk is not looked at. -/
def renameTarget (delDirInode : Inode) (delEntry : DirEntry) (isdelete : ℤ) (fName : NameBuf)
    (toPath : List UInt8) : M ℤ := do
  let (res,renameDir) ← lab4ReadInode toPath none
  if res = lab4Error then return lab4Error
  if res = -enoent then
    let (fName,dName) ← getNameFromPath toPath
    let (_,renameDir) ← lab4ReadInode (← lift dName.cstr) renameDir
    match renameDir with
    | none => undefined
    | some renameDirInode =>
      let fName ← lift fName.cstr
      if delDirInode.iIno = renameDirInode.iIno then
        let renameEntry := { delEntry with dFlag := lab4DirUsed, dFilename := strcpyName fName }
        let _ ← pwrite (dirEntryCodec.enc renameEntry) lab4DirEntrySize (entryOffset delDirInode isdelete)
        return lab4Success
      renameInto delDirInode delEntry isdelete renameDirInode fName
  else
    match renameDir with
    | none => undefined
    | some renameDirInode => renameInto delDirInode delEntry isdelete renameDirInode (← lift fName.cstr)

def doRename (fromPath toPath : List UInt8) : M ℤ := do
  let (fName,dName) ← getNameFromPath fromPath
  let (res,delDir) ← lab4ReadInode (← lift dName.cstr) none
  if res = lab4Error then return lab4Error
  if res = -enoent then return -enoent
  match delDir with
  | none => undefined
  | some delDirInode =>
    let (res,delEntry,isdelete) ← lab4Lookup delDirInode.iIno DirEntry.zero (← lift fName.cstr) 1
    if res = lab4Error then return lab4Error
    if res = -enoent then return -enoent
    renameTarget delDirInode delEntry isdelete fName toPath

end SimpleFS
