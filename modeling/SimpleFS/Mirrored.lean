import SimpleFS.HintKept

/-! # Metadata on the device

Super block, bitmaps and inode table have each a cluster of the device. Every operation flushes the buffers it has
changed before it returns, and writes nothing else below the data area.
-/
namespace SimpleFS
open Bytes Machine

/-- The four clusters hold what the buffers hold. -/
structure Iom.Mirrored (m : Iom) : Prop where
  sb : ∀ j < m.clusterSize, m.dev.bytes j = m.sb j
  ibmap : ∀ j < m.clusterSize, m.dev.bytes (m.clusterSize + j) = m.ibmap j
  dbmap : ∀ j < m.clusterSize, m.dev.bytes (2 * m.clusterSize + j) = m.dbmap j
  itble : ∀ j < m.clusterSize, m.dev.bytes (3 * m.clusterSize + j) = m.iomBufItble j

variable {m m' : Iom} {k b a n i j D E : ℕ} {v p t : Inode} {d : DirEntry} {x : Mem} {found : Bool}

namespace Iom

/-! ## Flushes -/

theorem Mounted.mirrored_flushAll (hm : m.Mounted) : m.flushAll.Mirrored where
  sb j hj := by
    have h := hm.flushed_sb hj
    rwa [Nat.zero_mul, Nat.zero_add] at h
  ibmap j hj := by
    have h := hm.flushed_ibmap hj
    rwa [Nat.one_mul] at h
  dbmap _ hj := hm.flushed_dbmap hj
  itble _ hj := hm.flushed_itble hj

/-- `lab4_createfile` leaves the data bitmap out. -/
theorem Mounted.mirrored_flushCreate (hm : m.Mounted)
    (hd : ∀ j < m.clusterSize, m.dev.bytes (2 * m.clusterSize + j) = m.dbmap j) : m.flushSb.flushIbmap.flushItble.Mirrored := by
  have hbytes : m.flushSb.flushIbmap.flushItble.dev.bytes = splice (splice (splice m.dev.bytes m.sbi.sbStart m.sbi.clusterSize
      m.sb) m.sbi.ibitmapStart m.sbi.clusterSize m.ibmap) m.sbi.itableStart m.sbi.clusterSize m.iomBufItble := rfl
  rw [hm.sbiCluster, hm.sbStart, hm.ibitmapStart, hm.itableStart] at hbytes
  refine ⟨fun j (hj : j < m.clusterSize) => ?_,fun j (hj : j < m.clusterSize) => ?_,fun j (hj : j < m.clusterSize) => ?_,
    fun j (hj : j < m.clusterSize) => ?_⟩ <;> rw [hbytes]
  · rw [splice_outside (by omega), splice_outside (by omega)]
    have h := splice_shift (m := m.dev.bytes) (a := 0) (d := m.sb) hj
    rwa [Nat.zero_add] at h
  · have hout : m.clusterSize + j < 3 * m.clusterSize := by omega
    exact (splice_outside (.inl hout)).trans (splice_shift hj)
  · have hout : 2 * m.clusterSize + j < 3 * m.clusterSize := by omega
    refine (splice_outside (.inl hout)).trans ?_
    rw [splice_outside (by omega), splice_outside (by omega)]
    exact hd j hj
  · exact splice_shift hj

/-- `do_write` leaves the inode bitmap out. -/
theorem Mounted.mirrored_flushWrite (hm : m.Mounted)
    (hi : ∀ j < m.clusterSize, m.dev.bytes (m.clusterSize + j) = m.ibmap j) : m.flushSb.flushItble.flushDbmap.Mirrored := by
  have hbytes : m.flushSb.flushItble.flushDbmap.dev.bytes = splice (splice (splice m.dev.bytes m.sbi.sbStart m.sbi.clusterSize
      m.sb) m.sbi.itableStart m.sbi.clusterSize m.iomBufItble) m.sbi.dbitmapStart m.sbi.clusterSize m.dbmap := rfl
  rw [hm.sbiCluster, hm.sbStart, hm.itableStart, hm.dbitmapStart] at hbytes
  refine ⟨fun j (hj : j < m.clusterSize) => ?_,fun j (hj : j < m.clusterSize) => ?_,fun j (hj : j < m.clusterSize) => ?_,
    fun j (hj : j < m.clusterSize) => ?_⟩ <;> rw [hbytes]
  · rw [splice_outside (by omega), splice_outside (by omega)]
    have h := splice_shift (m := m.dev.bytes) (a := 0) (d := m.sb) hj
    rwa [Nat.zero_add] at h
  · have hout : m.clusterSize + j < 2 * m.clusterSize := by omega
    refine (splice_outside (.inl hout)).trans ?_
    rw [splice_outside (by omega), splice_outside (by omega)]
    exact hi j hj
  · exact splice_shift hj
  · have hout : 2 * m.clusterSize + m.clusterSize ≤ 3 * m.clusterSize + j := by omega
    exact (splice_outside (.inr hout)).trans (splice_shift hj)

namespace Mirrored
variable (h : m.Mirrored)
include h

theorem writeDev (ha : 4 * m.clusterSize ≤ a) : (m.writeDev a n x).Mirrored := by
  have hlow : ∀ q, q < 4 * m.clusterSize → (m.writeDev a n x).dev.bytes q = m.dev.bytes q :=
    fun q hq => splice_outside (.inl (by omega))
  refine ⟨fun j (hj : j < m.clusterSize) => ?_,fun j (hj : j < m.clusterSize) => ?_,fun j (hj : j < m.clusterSize) => ?_,
    fun j (hj : j < m.clusterSize) => ?_⟩
  · exact (hlow j (by omega)).trans (h.sb j hj)
  · exact (hlow (m.clusterSize + j) (by omega)).trans (h.ibmap j hj)
  · exact (hlow (2 * m.clusterSize + j) (by omega)).trans (h.dbmap j hj)
  · exact (hlow (3 * m.clusterSize + j) (by omega)).trans (h.itble j hj)

theorem setFile (fid : ℕ) (ft : FileTable) : (m.setFile fid ft).Mirrored := ⟨h.sb,h.ibmap,h.dbmap,h.itble⟩

/-! ## Operations -/

theorem createFile (hm : m.Mounted) (ha : 4 * m.clusterSize ≤ a) : (m.createFile k v a d).Mirrored := by
  have hw : ((((m.takeInode k).setInode k v).writeEntry a d).addFreeInodes (-1)).Mounted :=
    hm.takeInode.setInode.writeEntry.addFreeInodes
  refine hw.mirrored_flushCreate (fun j (hj : j < m.clusterSize) => ?_)
  have hlow : 2 * m.clusterSize + j < a := by omega
  exact (splice_outside (.inl hlow)).trans (h.dbmap j hj)

/-- Where a write of the record ends. -/
theorem finishWrite (hm : m.Mounted) : (m.finishWrite v).Mirrored :=
  hm.setInode.mirrored_flushWrite (fun j hj => h.ibmap j hj)

theorem renameEntry {name : List UInt8} (ha : 4 * m.clusterSize ≤ slotAddr p i) : (m.renameEntry p i name).Mirrored := h.writeDev ha

theorem moveEntry (ha : 4 * m.clusterSize ≤ slotAddr p i) (hb : 4 * m.clusterSize ≤ slotAddr t j) :
    (m.moveEntry p i t found j).Mirrored := by
  unfold Iom.moveEntry
  cases found with
  | false => exact h.writeDev ha
  | true =>
    have hw : (m.writeEntry (slotAddr t j) { m.slotEntry p.iIno.toNat i with dFlag := lab4DirUsed }).Mirrored := h.writeDev hb
    exact hw.writeDev ha

end Mirrored

theorem Mounted.mirrored_makeDir {par : UInt32} (hm : m.Mounted) : (m.makeDir k b v a d par).Mirrored :=
  Mounted.mirrored_flushAll hm.takeInode.takeBlock.setBlknr.setInode.writeEntry.writeDev.addLink

theorem Mounted.mirrored_unlinkEmpty (hm : m.Mounted) : (m.unlinkEmpty k a d).Mirrored :=
  Mounted.mirrored_flushAll hm.freeInode.writeEntry

theorem Mounted.mirrored_unlinkFile (hm : m.Mounted) : (m.unlinkFile k b a d).Mirrored :=
  Mounted.mirrored_flushAll hm.freeBlock.writeDev.freeInode.writeEntry

theorem Mounted.mirrored_removeDir {par : ℕ} (hm : m.Mounted) : (m.removeDir k b a d par).Mirrored :=
  Mounted.mirrored_flushAll hm.freeInode.freeBlock.writeDev.writeEntry.addLink

/-- The slots of directories lie in the data area. -/
theorem Sane.slotAddr_le (h : m.Sane) (hD : m.tree.kind D = some .dir) : 4 * m.clusterSize ≤ slotAddr (m.inode D) i := by
  rw [h.slotAddr_eq hD, Iom.blockAddr]
  omega

end Iom

/-! ## Mount -/

/-- A mount reads the clusters into the buffers. -/
theorem mirrored_mountIom {dev : Device} {heap : ℕ → Mem} {y z : ℤ} : (mountIom dev heap y z).Mirrored where
  sb j hj := by
    have h := @Device.cluster_apply dev heap 0 j hj
    rw [Nat.zero_mul, Nat.zero_add] at h
    exact h.symm
  ibmap j hj := by
    have h := @Device.cluster_apply dev heap 1 j hj
    rw [Nat.one_mul] at h
    exact h.symm
  dbmap j hj := (@Device.cluster_apply dev heap 2 j hj).symm
  itble j hj := (@Device.cluster_apply dev heap 3 j hj).symm

end SimpleFS
