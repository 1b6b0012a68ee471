import SimpleFS.Allocation
import SimpleFS.File

/-! # What a write inside one block does

For `offset + size ≤ cluster_size` the loop of `do_write` runs once. It appends, or it replaces the
whole cluster by a string copy of the buffer; which of the two depends on the old size and the offset.
-/
namespace SimpleFS
open Bytes Machine Prog

/-- The handle after `do_write` has set its position. -/
def Iom.seekFile (m : Iom) (fid offset : ℕ) : Iom :=
  m.setFile fid { m.sbi.fileTable fid with rwoffset := offset }

/-- The size an append leaves in the handle. -/
def Iom.appendSize (m : Iom) (fid size offset : ℕ) : ℤ :=
  if ((offset + size : ℕ) : ℤ) > (m.sbi.fileTable fid).size then (offset + size : ℕ) else (m.sbi.fileTable fid).size

def Iom.appendData (m : Iom) (fid : ℕ) (buf : Mem) (size offset a : ℕ) : Iom :=
  (m.writeDev (a + offset) size buf).setFile fid
    { m.sbi.fileTable fid with rwoffset := (offset + size : ℕ), size := m.appendSize fid size offset }

def Iom.overwriteData (m : Iom) (fid : ℕ) (buf : Mem) (size offset a : ℕ) : Iom :=
  (m.writeDev (a + offset) m.clusterSize (strncpyBuf buf size)).setFile fid
    { m.sbi.fileTable fid with rwoffset := size, size := size }

/-- The record goes back to the table and three metadata clusters to the device. -/
def Iom.finishWrite (m : Iom) (v : Inode) : Iom := (m.setInode v.iIno.toNat v).flushSb.flushItble.flushDbmap

variable {e : Env} {s : Sys}

theorem Iom.Mounted.appendData {m : Iom} {fid size offset a : ℕ} {buf : Mem} (h : m.Mounted) :
    (m.appendData fid buf size offset a).Mounted := h.writeDev.setFile

theorem Iom.Mounted.overwriteData {m : Iom} {fid size offset a : ℕ} {buf : Mem} (h : m.Mounted) :
    (m.overwriteData fid buf size offset a).Mounted := h.writeDev.setFile

/-- The number of bytes left in the block, in the unsigned arithmetic of the source. -/
theorem curRemain_eq {cs offset : ℕ} (h : offset ≤ cs) (hcs : cs < 2^32) : toU32 (cs - offset) = cs - offset := by
  rw [← Nat.cast_sub h, toU32_natCast (by omega)]

theorem writeLoop_zero {fid offset fuel : ℕ} {buf : Mem} {blocknr wByte : ℤ} {v : Inode} :
    writeLoop fid buf offset blocknr fuel 0 v wByte = pure (some (v,wByte)) := by
  cases fuel with
  | zero => rw [writeLoop, if_pos rfl]
  | succ fuel => rw [writeLoop, if_pos rfl]

/-- One round of the loop inside a block. -/
theorem wp_writeLoop {fid offset size a fuel : ℕ} {buf : Mem} {wByte : ℤ} {v : Inode}
    {Q : Option (Inode × ℤ) → Sys → Prop} (hio : e.IoOk) (hm : s.iom.Mounted) (hsize : 1 ≤ size)
    (hin : offset + size ≤ s.iom.clusterSize) (hrw : (s.iom.sbi.fileTable fid).rwoffset = offset)
    (happend : ∀ s', v.iSize.toInt ≤ offset → s'.iom = s.iom.appendData fid buf size offset a →
      Q (some ({ v with iSize := Int64.ofInt (s.iom.appendSize fid size offset) },(size : ℕ))) s')
    (hover : ∀ s', (offset : ℤ) < v.iSize.toInt → s'.iom = s.iom.overwriteData fid buf size offset a →
      Q (some ({ v with iSize := Int64.ofInt (size : ℕ) },(s.iom.clusterSize : ℕ))) s') :
    wp True (writeLoop fid buf offset (a + offset : ℕ) fuel size v wByte) Q e s := by
  have hcs := hm.cluster_le
  have hrem : toU32 (s.iom.clusterSize - offset) = s.iom.clusterSize - offset := curRemain_eq (by omega) (by omega)
  have hmin : (if s.iom.clusterSize - offset > size then size else s.iom.clusterSize - offset) = size := by
    split <;> omega
  cases fuel with
  | zero =>
    rw [writeLoop, if_neg (by omega), wp_undefined]
    trivial
  | succ fuel =>
    rw [writeLoop, if_neg (by omega), wp_bind, wp_getIom]
    dsimp only
    rw [hrem, hmin, hrw]
    rw [wp_ite]
    refine ⟨fun hv => ?_,fun hv => ?_⟩
    · rw [wp_bind]
      apply wp_pwrite_ok hio (Int.natCast_nonneg _)
      intro s1 h1
      rw [if_neg (toS32_ne_error (by omega)), wp_bind]
      apply wp_modifyIom_any
      intro s2 h2
      rw [Nat.sub_self, writeLoop_zero, wp_pure, toS32_natCast (by omega)]
      have hsum : (offset : ℤ) + size = (offset + size : ℕ) := (Nat.cast_add _ _).symm
      rw [hsum] at h2 ⊢
      rw [h1, Int.toNat_natCast] at h2
      exact happend s2 hv h2
    · rw [wp_bind]
      apply wp_malloc_cases
      intro c s1 h1 _
      cases c with
      | false =>
        rw [if_pos (by decide), wp_undefined]
        trivial
      | true =>
        rw [if_neg (by decide), wp_bind]
        apply wp_pwrite_ok hio (Int.natCast_nonneg _)
        intro s2 h2
        rw [if_neg hm.clusterSize_ne_error, wp_bind]
        apply wp_modifyIom_any
        intro s3 h3
        rw [Nat.sub_self, writeLoop_zero, wp_pure, toS32_natCast (by omega)]
        rw [h2, h1, Int.toNat_natCast] at h3
        exact hover s3 (by omega) h3

/-- The block a write goes to: the one the record names, or a fresh one for an empty file. -/
inductive Iom.WriteBlock (m : Iom) (v : Inode) : Iom → Inode → ℕ → Prop
  | old (h : v.iSize ≠ 0) : WriteBlock m v m v (v.iBlocks 0).toNat
  | fresh (b : ℕ) (h : v.iSize = 0) (hb : b < m.maxBlock) (hbit : m.dbit b = false)
      (hfirst : m.sbi.lastAllocatedBlknr < m.maxBlock →
        ∀ q, m.sbi.lastAllocatedBlknr ≤ q → q < b → m.dbit q = true) :
      WriteBlock m v (m.takeBlock b)
        { v with iBlocks := Function.update v.iBlocks 0 (UInt32.ofNat (m.blockAddr b)) } (m.blockAddr b)

theorem wp_writeBlock {fid offset size a : ℕ} {buf : Mem} {v : Inode} {Q : ℤ → Sys → Prop} (hio : e.IoOk)
    (hm : s.iom.Mounted) (hsize : 1 ≤ size) (hin : offset + size ≤ s.iom.clusterSize)
    (hrw : (s.iom.sbi.fileTable fid).rwoffset = offset) (hv : v.iIno.toNat < s.iom.inodeNum)
    (happend : ∀ s', v.iSize.toInt ≤ offset →
      s'.iom = (s.iom.appendData fid buf size offset a).finishWrite
        { v with iSize := Int64.ofInt (s.iom.appendSize fid size offset) } → Q (size : ℕ) s')
    (hover : ∀ s', (offset : ℤ) < v.iSize.toInt →
      s'.iom = (s.iom.overwriteData fid buf size offset a).finishWrite { v with iSize := Int64.ofInt (size : ℕ) } →
      Q (s.iom.clusterSize : ℕ) s') :
    wp True (writeBlock fid buf size offset v (a : ℕ)) Q e s := by
  -- storing the record and flushing, whatever the loop has written
  have hfinish : ∀ (s1 : Sys) (x : Int64) (w : ℤ), s1.iom.Mounted → s1.iom.clusterSize = s.iom.clusterSize →
      (∀ s', s'.iom = s1.iom.finishWrite { v with iSize := x } → Q w s') →
      wp True (do
        let res ← writeInodeToItble { v with iSize := x }
        if res = lab4Error then return lab4Error
        let _ ← updateSb
        let _ ← updateItble
        let _ ← updateDbmap
        return w) Q e s1 := by
    intro s1 x w hm1 hcs1 hQ
    rw [wp_bind]
    refine wp_writeInodeToItble hm1 (by rw [Iom.inodeNum, hcs1]; exact hv) ?_
    intro s2 h2
    have hm2 : s2.iom.Mounted := h2 ▸ hm1.setInode
    rw [if_neg (by decide), wp_bind]
    apply wp_updateSb hio hm2
    intro s3 h3
    rw [wp_bind]
    apply wp_updateItble hio (h3 ▸ hm2.writeDev)
    intro s4 h4
    rw [wp_bind]
    apply wp_updateDbmap hio (by rw [h4, h3]; exact hm2.writeDev.writeDev)
    intro s5 h5
    rw [wp_pure]
    exact hQ s5 (by rw [h5, h4, h3, h2]; rfl)
  unfold writeBlock
  rw [wp_bind, wp_env, wp_bind]
  apply wp_indeterminate_any
  intro w s0 h0
  rw [← h0] at hm hin hrw hfinish happend hover
  rw [wp_bind, ← Nat.cast_add]
  refine wp_writeLoop hio hm hsize hin hrw ?_ ?_
  · intro s1 hle h1
    exact hfinish s1 _ _ (h1 ▸ hm.appendData) (by rw [h1]; rfl) (fun s' hs' => happend s' hle (h1 ▸ hs'))
  · intro s1 hlt h1
    exact hfinish s1 _ _ (h1 ▸ hm.overwriteData) (by rw [h1]; rfl) (fun s' hs' => hover s' hlt (h1 ▸ hs'))

/-- `do_write` inside one block returns an error with only the position moved, or appends, or overwrites. -/
theorem wp_doWrite {fid offset size : ℕ} {buf : Mem} {v : Inode} {Q : ℤ → Sys → Prop} (hio : e.IoOk)
    (hm : s.iom.Mounted) (hsize : 1 ≤ size) (hin : offset + size ≤ s.iom.clusterSize)
    (hv : s.iom.inode (s.iom.sbi.fileTable fid).ino.toNat = v) (hino : v.iIno.toNat < s.iom.inodeNum)
    (herr : ∀ s', s'.iom = s.iom.seekFile fid offset → Q lab4Error s')
    (happend : ∀ s' m1 v1 a, 2 ≤ (s.iom.sbi.fileTable fid).ino.toNat → (v.iSize = 0 → s.iom.BlockRoom (-1)) →
      Iom.WriteBlock (s.iom.seekFile fid offset) v m1 v1 a →
      v.iSize.toInt ≤ offset →
      s'.iom = (m1.appendData fid buf size offset a).finishWrite
        { v1 with iSize := Int64.ofInt (m1.appendSize fid size offset) } → Q (size : ℕ) s')
    (hover : ∀ s', 2 ≤ (s.iom.sbi.fileTable fid).ino.toNat → (offset : ℤ) < v.iSize.toInt →
      s'.iom = ((s.iom.seekFile fid offset).overwriteData fid buf size offset (v.iBlocks 0).toNat).finishWrite
        { v with iSize := Int64.ofInt (size : ℕ) } → Q (s.iom.clusterSize : ℕ) s') :
    wp True (doWrite fid buf size offset) Q e s := by
  unfold doWrite
  rw [wp_bind, wp_getIom, wp_ite, wp_undefined]
  refine ⟨fun _ => trivial,fun hfid => ?_⟩
  rw [wp_bind]
  apply wp_modifyIom_any
  intro s1 h1
  replace h1 : s1.iom = s.iom.seekFile fid offset := h1
  have hm1 : s1.iom.Mounted := h1 ▸ hm.setFile
  have hft : (s1.iom.sbi.fileTable fid).rwoffset = offset := by
    rw [h1]
    simp [Iom.seekFile, Iom.setFile]
  have hcs1 : s1.iom.clusterSize = s.iom.clusterSize := by simp [h1, Iom.seekFile]
  have hn1 : s1.iom.inodeNum = s.iom.inodeNum := by rw [Iom.inodeNum, hcs1]; rfl
  rw [wp_bind]
  refine wp_doReadInode (fun s2 h2 _ => ?_) (fun _ _ => trivial) (fun s2 h2 hk _ => ?_)
  · rw [wp_pure]
    exact herr s2 (h2.trans h1)
  have hrec : s1.iom.inode (s.iom.sbi.fileTable fid).ino.toNat = v := by rw [h1]; exact hv
  rw [hrec]
  rw [← hn1] at hino
  rw [← hcs1] at hin hover
  rw [← h2] at hm1 hft hin hino hover
  have hs2 : s2.iom = s.iom.seekFile fid offset := h2.trans h1
  dsimp only
  rw [wp_ite]
  refine ⟨fun hz => ?_,fun hz => ?_⟩
  · rw [wp_bind]
    refine wp_allocBlockInbmap hm1 ?_ ?_
    · intro s3 b h3
      dsimp only
      rw [if_pos rfl, wp_bind]
      exact wp_restoreDbmap_none trivial h3
    intro s3 b hroom h3 hb hbit hfirst
    have hblocks : s.iom.BlockRoom (-1) := by
      rw [hs2] at hroom
      exact hroom
    have hblk := Iom.WriteBlock.fresh (m := s2.iom) b hz hb hbit hfirst
    have haddr : s.iom.writeBlocknr b = s2.iom.blockAddr b := by
      rw [hm.writeBlocknr_eq, Iom.blockAddr, Iom.blockAddr, h2, hcs1]
    have hm3 : s3.iom.Mounted := h3 ▸ hm1.takeBlock
    have hcs3 : s3.iom.clusterSize = s2.iom.clusterSize := by simp [h3]
    rw [hs2, ← hs2] at hblk
    dsimp only
    rw [if_neg (by decide), Iom.writeAddr, haddr]
    refine wp_writeBlock hio hm3 hsize (hcs3 ▸ hin) (h3 ▸ hft) (by rw [Iom.inodeNum, hcs3]; exact hino) ?_ ?_
    · intro s4 hle h4
      rw [h3] at h4
      exact happend s4 _ _ _ hk (fun _ => hblocks) (hs2 ▸ hblk) hle h4
    · intro s4 hlt h4
      have : v.iSize.toInt = 0 := by rw [hz]; rfl
      dsimp only at hlt
      omega
  · refine wp_writeBlock hio hm1 hsize hin hft hino ?_ ?_
    · intro s3 hle h3
      rw [hs2] at h3
      exact happend s3 _ _ _ hk (fun h0 => absurd h0 hz) (.old hz) hle h3
    · intro s3 hlt h3
      exact hover s3 hk hlt (hs2 ▸ h3)

end SimpleFS
