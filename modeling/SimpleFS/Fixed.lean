import SimpleFS.Remove
import SimpleFS.Rename
import SimpleFS.Write

/-! # What no operation changes

Mounting fixes the cluster size and most of `struct lab4_sb_info`. The operations move the free counters,
the next-inode hint and the open files, and nothing else.
-/
namespace SimpleFS
open Bytes Machine

/-- The part of `struct lab4_sb_info` that stays as it was mounted. -/
def SbInfo.fixed (i : SbInfo) : SbInfo :=
  { i with sbFreeInodes := 0, sbFreeBlocks := 0, lastAllocatedIno := 0, fileTable := fun _ => FileTable.empty }

def Iom.fixed (m : Iom) : ℕ × SbInfo := (m.clusterSize,m.sbi.fixed)

section Fixed
variable {m m' : Iom} (k b a n : ℕ) (v : Inode) (d : DirEntry) (x : ℤ) (y : Mem)

theorem fixed_cluster (h : m'.fixed = m.fixed) : m'.clusterSize = m.clusterSize := congrArg Prod.fst h

/-- A function of the fixed fields stays. -/
theorem fixed_sbi {α : Type} (f : SbInfo → α) (hf : ∀ i, f i.fixed = f i) (h : m'.fixed = m.fixed) :
    f m'.sbi = f m.sbi := by
  rw [← hf m'.sbi, ← hf m.sbi]
  exact congrArg (fun g => f g.2) h

theorem fixed_maxBlock (h : m'.fixed = m.fixed) : m'.maxBlock = m.maxBlock :=
  fixed_sbi (fun i => i.dareaSize / i.clusterSize) (fun _ => rfl) h

theorem fixed_hint (h : m'.fixed = m.fixed) : m'.sbi.lastAllocatedBlknr = m.sbi.lastAllocatedBlknr :=
  fixed_sbi SbInfo.lastAllocatedBlknr (fun _ => rfl) h

@[simp] theorem fixed_addFreeInodes : (m.addFreeInodes x).fixed = m.fixed := (rfl)
@[simp] theorem fixed_writeDev : (m.writeDev a n y).fixed = m.fixed := (rfl)
@[simp] theorem fixed_setInode : (m.setInode k v).fixed = m.fixed := (rfl)
@[simp] theorem fixed_takeInode : (m.takeInode k).fixed = m.fixed := (rfl)
@[simp] theorem fixed_takeBlock : (m.takeBlock k).fixed = m.fixed := (rfl)
@[simp] theorem fixed_freeInode : (m.freeInode k).fixed = m.fixed := (rfl)
@[simp] theorem fixed_freeBlock : (m.freeBlock k).fixed = m.fixed := (rfl)
@[simp] theorem fixed_setBlknr : (m.setBlknr b).fixed = m.fixed := (rfl)
@[simp] theorem fixed_addLink (f : UInt32 → UInt32) : (m.addLink f k).fixed = m.fixed := (rfl)
@[simp] theorem fixed_writeEntry : (m.writeEntry a d).fixed = m.fixed := (rfl)
@[simp] theorem fixed_setFile (ft : FileTable) : (m.setFile k ft).fixed = m.fixed := (rfl)
@[simp] theorem fixed_flushSb : m.flushSb.fixed = m.fixed := (rfl)
@[simp] theorem fixed_flushIbmap : m.flushIbmap.fixed = m.fixed := (rfl)
@[simp] theorem fixed_flushDbmap : m.flushDbmap.fixed = m.fixed := (rfl)
@[simp] theorem fixed_flushItble : m.flushItble.fixed = m.fixed := (rfl)
@[simp] theorem fixed_flushAll : m.flushAll.fixed = m.fixed := (rfl)

@[simp] theorem fixed_createFile : (m.createFile k v a d).fixed = m.fixed := by
  rw [Iom.createFile, fixed_flushItble, fixed_flushIbmap, fixed_flushSb, fixed_addFreeInodes, fixed_writeEntry,
    fixed_setInode, fixed_takeInode]

@[simp] theorem fixed_makeDir (par : UInt32) : (m.makeDir k b v a d par).fixed = m.fixed := by
  rw [Iom.makeDir, fixed_flushAll, fixed_addLink, fixed_writeDev, fixed_writeEntry, fixed_setInode, fixed_setBlknr,
    fixed_takeBlock, fixed_takeInode]

@[simp] theorem fixed_unlinkEntry : (m.unlinkEntry a d).fixed = m.fixed := (rfl)

@[simp] theorem fixed_unlinkEmpty : (m.unlinkEmpty k a d).fixed = m.fixed := by
  rw [Iom.unlinkEmpty, fixed_unlinkEntry, fixed_freeInode]

@[simp] theorem fixed_unlinkFile : (m.unlinkFile k b a d).fixed = m.fixed := by
  rw [Iom.unlinkFile, fixed_unlinkEntry, fixed_freeInode, Iom.wipeBlock, fixed_writeDev, fixed_freeBlock]

@[simp] theorem fixed_removeDir (par : ℕ) : (m.removeDir k b a d par).fixed = m.fixed := by
  rw [Iom.removeDir, fixed_flushAll, fixed_addLink, fixed_writeEntry, Iom.wipeBlock, fixed_writeDev, fixed_freeBlock,
    fixed_freeInode]

@[simp] theorem fixed_renameEntry (p : Inode) (i : ℕ) (name : List UInt8) : (m.renameEntry p i name).fixed = m.fixed :=
  (rfl)

@[simp] theorem fixed_moveEntry (p t : Inode) (i j : ℕ) (found : Bool) : (m.moveEntry p i t found j).fixed = m.fixed := by
  unfold Iom.moveEntry
  cases found <;> rfl

@[simp] theorem fixed_finishWrite : (m.finishWrite v).fixed = m.fixed := by
  rw [Iom.finishWrite, fixed_flushDbmap, fixed_flushItble, fixed_flushSb, fixed_setInode]

end Fixed

end SimpleFS
