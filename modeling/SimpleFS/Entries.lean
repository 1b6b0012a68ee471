import SimpleFS.Ledger
import SimpleFS.Rename

/-! # Directory entries by block and slot

Seen through blocks and slots instead of addresses, every write of an operation is one of three things:
it puts an entry into a slot, it fills a block, or it stays below the data area and touches no entry.
-/
namespace SimpleFS
open Bytes

/-- Slot `i` of data block `b`; no directory has more slots than `lab4DirEntryNum`. -/
def Iom.entries (m : Iom) (b i : ℕ) : DirEntry :=
  if i < lab4DirEntryNum then dirEntryCodec.get m.dev.bytes (m.blockAddr b + lab4DirEntrySize * i) else DirEntry.zero

def putEntry (f : ℕ → ℕ → DirEntry) (b i : ℕ) (d : DirEntry) : ℕ → ℕ → DirEntry :=
  fun c j => if c = b ∧ j = i ∧ j < lab4DirEntryNum then d else f c j

def fillBlock (f : ℕ → ℕ → DirEntry) (b : ℕ) (g : ℕ → DirEntry) : ℕ → ℕ → DirEntry :=
  fun c j => if c = b ∧ j < lab4DirEntryNum then g j else f c j

variable {m m' : Iom} {a b c i j n : ℕ} {d : DirEntry} {x : Mem}

theorem entries_of_lt (hj : j < lab4DirEntryNum) :
    m.entries c j = dirEntryCodec.get m.dev.bytes (m.blockAddr c + lab4DirEntrySize * j) := if_pos hj

theorem entries_of_not_lt (hj : ¬j < lab4DirEntryNum) : m.entries c j = DirEntry.zero := if_neg hj

/-- Zeroed memory holds unused entries. -/
theorem get_zeros (a : ℕ) : dirEntryCodec.get zeros a = DirEntry.zero := by
  have hz : ∀ i < 128, dirEntryCodec.enc DirEntry.zero i = 0 := by decide +kernel
  exact dirEntryCodec.dec_of_agree _ _ (fun i _ hi => (hz i (by simpa using hi)).symm)

/-! ## Addresses -/

theorem blockAddr_le_of_lt (cs : ℕ) (h : b < c) : b * cs + 4 * cs + cs ≤ c * cs + 4 * cs := by
  have := Nat.mul_le_mul_right cs (Nat.succ_le_of_lt h)
  rw [Nat.succ_mul] at this
  omega

namespace Iom.Mounted
variable (h : m.Mounted)
include h

theorem slot_in_block (hi : i < m.clusterSize / lab4DirEntrySize) :
    lab4DirEntrySize * i + lab4DirEntrySize ≤ m.clusterSize := by
  have hs := h.slots
  unfold lab4DirEntrySize at *
  omega

theorem dirEntryNum_le : lab4DirEntryNum ≤ m.clusterSize / lab4DirEntrySize := by
  have := h.cluster_le
  unfold lab4DirEntryNum lab4DirEntrySize
  omega

/-- Two slots of the data area are the same one or do not overlap. -/
theorem slots_disjoint (hi : i < m.clusterSize / lab4DirEntrySize) (hj : j < m.clusterSize / lab4DirEntrySize)
    (hne : ¬(c = b ∧ j = i)) :
    m.blockAddr c + lab4DirEntrySize * j + lab4DirEntrySize ≤ m.blockAddr b + lab4DirEntrySize * i ∨
      m.blockAddr b + lab4DirEntrySize * i + lab4DirEntrySize ≤ m.blockAddr c + lab4DirEntrySize * j := by
  have hsi := h.slot_in_block hi
  have hsj := h.slot_in_block hj
  unfold Iom.blockAddr
  rcases Nat.lt_trichotomy c b with hcb | rfl | hcb
  · have := blockAddr_le_of_lt m.clusterSize hcb
    omega
  · have hij : j ≠ i := fun hji => hne ⟨rfl,hji⟩
    unfold lab4DirEntrySize at *
    omega
  · have := blockAddr_le_of_lt m.clusterSize hcb
    omega

/-! ## Effects -/

theorem entries_writeEntry (hi : i < m.clusterSize / lab4DirEntrySize) :
    (m.writeEntry (m.blockAddr b + lab4DirEntrySize * i) d).entries = putEntry m.entries b i d := by
  have hn := h.dirEntryNum_le
  funext c j
  unfold putEntry
  by_cases hj : j < lab4DirEntryNum
  · rw [entries_of_lt hj, entries_of_lt hj]
    have hsz : dirEntryCodec.size = lab4DirEntrySize := rfl
    by_cases he : c = b ∧ j = i
    · obtain ⟨rfl,rfl⟩ := he
      rw [if_pos ⟨rfl,rfl,hj⟩]
      exact dirEntryCodec.get_put_self
    · rw [if_neg (by tauto)]
      exact dirEntryCodec.get_splice_of_disjoint (by
        have := h.slots_disjoint hi (hj.trans_le hn) he
        rwa [hsz])
  · rw [entries_of_not_lt hj, entries_of_not_lt hj, if_neg (by tauto)]

theorem entries_writeBlock :
    (m.writeDev (m.blockAddr b) m.clusterSize x).entries = fillBlock m.entries b (fun i => entryAt x i) := by
  have hn := h.dirEntryNum_le
  funext c j
  unfold fillBlock
  by_cases hj : j < lab4DirEntryNum
  · rw [entries_of_lt hj, entries_of_lt hj]
    have hs := h.slot_in_block (hj.trans_le hn)
    have hsz : dirEntryCodec.size = lab4DirEntrySize := rfl
    by_cases he : c = b
    · subst he
      rw [if_pos ⟨rfl,hj⟩]
      refine (dirEntryCodec.get_splice_inside (Nat.le_add_right _ _) ?_).trans ?_
      · omega
      · rw [Nat.add_sub_cancel_left]
        rfl
    · rw [if_neg (by tauto)]
      refine dirEntryCodec.get_splice_of_disjoint ?_
      rw [hsz]
      change m.blockAddr c + _ + _ ≤ m.blockAddr b ∨ m.blockAddr b + _ ≤ m.blockAddr c + _
      unfold Iom.blockAddr
      rcases Nat.lt_or_gt_of_ne he with hcb | hcb
      · have := blockAddr_le_of_lt m.clusterSize hcb
        omega
      · have := blockAddr_le_of_lt m.clusterSize hcb
        omega
  · rw [entries_of_not_lt hj, entries_of_not_lt hj, if_neg (by tauto)]

omit h in
theorem entries_writeLow (hlow : a + n ≤ 4 * m.clusterSize) : (m.writeDev a n x).entries = m.entries := by
  funext c j
  unfold Iom.entries
  split
  · refine dirEntryCodec.get_splice_of_disjoint (.inr ?_)
    change a + n ≤ m.blockAddr c + _
    unfold Iom.blockAddr
    omega
  · rfl

theorem entries_flushSb : m.flushSb.entries = m.entries :=
  entries_writeLow (by rw [h.sbStart, h.sbiCluster]; omega)

theorem entries_flushIbmap : m.flushIbmap.entries = m.entries :=
  entries_writeLow (by rw [h.ibitmapStart, h.sbiCluster]; omega)

theorem entries_flushDbmap : m.flushDbmap.entries = m.entries :=
  entries_writeLow (by rw [h.dbitmapStart, h.sbiCluster]; omega)

theorem entries_flushItble : m.flushItble.entries = m.entries :=
  entries_writeLow (by rw [h.itableStart, h.sbiCluster]; omega)

theorem flushSb : m.flushSb.Mounted := h.writeDev
theorem flushIbmap : m.flushIbmap.Mounted := h.writeDev
theorem flushDbmap : m.flushDbmap.Mounted := h.writeDev
theorem flushItble : m.flushItble.Mounted := h.writeDev

theorem entries_flushAll : m.flushAll.entries = m.entries := by
  rw [Iom.flushAll, h.flushSb.flushIbmap.flushDbmap.entries_flushItble, h.flushSb.flushIbmap.entries_flushDbmap,
    h.flushSb.entries_flushIbmap, h.entries_flushSb]

end Iom.Mounted

/-- An update of the memory side leaves every entry. -/
theorem entries_congr (hdev : m'.dev = m.dev) (hcs : m'.clusterSize = m.clusterSize) : m'.entries = m.entries := by
  funext b i
  unfold Iom.entries Iom.blockAddr
  rw [hdev, hcs]

section Memory
variable (m : Iom) (k : ℕ) (v : Inode) (f : UInt32 → UInt32) (z : ℤ) (ft : FileTable)

theorem entries_setInode : (m.setInode k v).entries = m.entries := entries_congr (Iom.setInode_dev m k v) rfl
theorem entries_addLink : (m.addLink f k).entries = m.entries := entries_congr (Iom.setInode_dev m k _) rfl
theorem entries_addFreeInodes : (m.addFreeInodes z).entries = m.entries := entries_congr (Iom.addFreeInodes_dev m z) rfl
theorem entries_setBlknr : (m.setBlknr k).entries = m.entries := entries_congr (Iom.setBlknr_dev m k) rfl
theorem entries_takeInode : (m.takeInode k).entries = m.entries := entries_congr (Iom.takeInode_dev m k) rfl
theorem entries_takeBlock : (m.takeBlock k).entries = m.entries := entries_congr (Iom.takeBlock_dev m k) rfl
theorem entries_freeInode : (m.freeInode k).entries = m.entries := entries_congr (Iom.freeInode_dev m k) rfl
theorem entries_freeBlock : (m.freeBlock k).entries = m.entries := entries_congr (Iom.freeBlock_dev m k) rfl
theorem entries_setFile : (m.setFile k ft).entries = m.entries := entries_congr rfl rfl

end Memory

theorem blockAddr_congr (hcs : m'.clusterSize = m.clusterSize) : m'.blockAddr b = m.blockAddr b := by
  unfold Iom.blockAddr
  rw [hcs]

/-! ## The entries of an operation -/

section Effects
variable (h : m.Mounted) {k : ℕ} {v : Inode}
include h

theorem entries_createFile (hi : i < m.clusterSize / lab4DirEntrySize) :
    (m.createFile k v (m.blockAddr b + lab4DirEntrySize * i) d).entries = putEntry m.entries b i d := by
  have hm : ((m.takeInode k).setInode k v).Mounted := h.takeInode.setInode
  have hw := (hm.writeEntry (a := m.blockAddr b + lab4DirEntrySize * i) (d := d)).addFreeInodes (x := -1)
  rw [Iom.createFile, hw.flushSb.flushIbmap.entries_flushItble, hw.flushSb.entries_flushIbmap, hw.entries_flushSb,
    entries_addFreeInodes]
  exact (hm.entries_writeEntry hi).trans (by rw [entries_setInode, entries_takeInode])

theorem entries_makeDir (hi : i < m.clusterSize / lab4DirEntrySize) (par : UInt32) :
    (m.makeDir k n v (m.blockAddr b + lab4DirEntrySize * i) d par).entries =
      fillBlock (putEntry m.entries b i d) n (fun i => entryAt (newDirArea (UInt32.ofNat k) par) i) := by
  have hm : ((((m.takeInode k).takeBlock n).setBlknr n).setInode k v).Mounted := h.takeInode.takeBlock.setBlknr.setInode
  have hw := hm.writeEntry (a := m.blockAddr b + lab4DirEntrySize * i) (d := d)
  have hd := hw.writeDev (a := m.blockAddr n) (n := m.clusterSize) (d := newDirArea (UInt32.ofNat k) par)
  have hcs : (((((m.takeInode k).takeBlock n).setBlknr n).setInode k v).writeEntry
      (m.blockAddr b + lab4DirEntrySize * i) d).clusterSize = m.clusterSize := by simp [Iom.writeEntry]
  have hcs' : ((((m.takeInode k).takeBlock n).setBlknr n).setInode k v).clusterSize = m.clusterSize := by simp
  rw [Iom.makeDir, hd.addLink.entries_flushAll, entries_addLink, ← blockAddr_congr (b := n) hcs, ← hcs,
    hw.entries_writeBlock, ← blockAddr_congr (b := b) hcs', hm.entries_writeEntry (by rwa [hcs']), entries_setInode, entries_setBlknr, entries_takeBlock, entries_takeInode]

theorem entries_unlinkEntry (hi : i < m.clusterSize / lab4DirEntrySize) :
    (m.unlinkEntry (m.blockAddr b + lab4DirEntrySize * i) d).entries = putEntry m.entries b i d := by
  rw [Iom.unlinkEntry, h.writeEntry.entries_flushAll, h.entries_writeEntry hi]

theorem entries_unlinkEmpty (hi : i < m.clusterSize / lab4DirEntrySize) :
    (m.unlinkEmpty k (m.blockAddr b + lab4DirEntrySize * i) d).entries = putEntry m.entries b i d := by
  refine (entries_unlinkEntry h.freeInode hi).trans ?_
  rw [entries_freeInode]

theorem entries_wipeBlock : (m.wipeBlock b).entries = fillBlock m.entries b (fun i => entryAt zeros i) := by
  refine h.freeBlock.entries_writeBlock.trans ?_
  rw [entries_freeBlock]

theorem entries_unlinkFile (hi : i < m.clusterSize / lab4DirEntrySize) :
    (m.unlinkFile k n (m.blockAddr b + lab4DirEntrySize * i) d).entries =
      putEntry (fillBlock m.entries n (fun i => entryAt zeros i)) b i d := by
  have hw : (m.wipeBlock n).Mounted := h.freeBlock.writeDev
  refine (entries_unlinkEntry hw.freeInode hi).trans ?_
  rw [entries_freeInode, entries_wipeBlock h]

theorem entries_removeDir (hi : i < m.clusterSize / lab4DirEntrySize) (par : ℕ) :
    (m.removeDir k n (m.blockAddr b + lab4DirEntrySize * i) d par).entries =
      putEntry (fillBlock m.entries n (fun i => entryAt zeros i)) b i d := by
  have hw : ((m.freeInode k).wipeBlock n).Mounted := h.freeInode.freeBlock.writeDev
  rw [Iom.removeDir, hw.writeEntry.addLink.entries_flushAll, entries_addLink]
  refine (hw.entries_writeEntry hi).trans ?_
  rw [entries_wipeBlock h.freeInode, entries_freeInode]

end Effects

end SimpleFS
