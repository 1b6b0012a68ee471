import SimpleFS.BlockHint

/-! # The free counters

Format counts block 0 as free though its bit is set, `lab4_createfile` drops the counter of free inodes
twice, and a mount does not copy the counters into `struct lab4_sb_info`. The first alone keeps the counter
of free blocks above the number of clear bits in every run: taking a block moves both by one, and releasing
one raises the counter by one and the clear bits by one at most.
-/
namespace SimpleFS
open Bytes Machine Prog

variable {e : Env} {s : Sys} {m m' : Iom} {p v w : Inode} {name : List UInt8} {b k : ℕ}

/-- Clear bits among those of the inodes of the table. -/
def Iom.clearInodes (m : Iom) : ℕ := clearCount (m.sbi.ibitmapSize / lab4InodeEntrySize) m.ibmap

/-- Clear bits among those of the data blocks. -/
def Iom.clearBlocks (m : Iom) : ℕ := clearCount m.maxBlock m.dbmap

/-- The counters of the super block count the clear bits, and `struct lab4_sb_info` has the same numbers. -/
structure Iom.CountersExact (m : Iom) : Prop where
  inodes : m.superBlock.sbFreeInodes.toInt = m.clearInodes
  blocks : m.superBlock.sbFreeBlocks.toInt = m.clearBlocks
  memInodes : m.sbi.sbFreeInodes = m.superBlock.sbFreeInodes.toInt
  memBlocks : m.sbi.sbFreeBlocks = m.superBlock.sbFreeBlocks.toInt

/-! ## More blocks counted than clear -/

/-- What the counter of free blocks has above the number of clear bits. -/
def Iom.excess (m : Iom) : ℤ := m.superBlock.sbFreeBlocks.toInt - m.clearBlocks

theorem excess_congr (hmax : m'.maxBlock = m.maxBlock) (hd : m'.dbmap = m.dbmap)
    (hsb : m'.superBlock.sbFreeBlocks = m.superBlock.sbFreeBlocks) : m'.excess = m.excess := by
  unfold Iom.excess Iom.clearBlocks
  rw [hmax, hd, hsb]

theorem excess_addFreeInodes (x : ℤ) : (m.addFreeInodes x).excess = m.excess :=
  excess_congr rfl rfl (by rw [Iom.addFreeInodes, Iom.superBlock_setSuperBlock])

theorem excess_setInoHint (x : ℕ) : (m.setInoHint x).excess = m.excess :=
  excess_congr rfl rfl ((congrArg SuperBlock.sbFreeBlocks superBlockCodec.get_put_self).trans rfl)

theorem excess_setBlknr (x : ℕ) : (m.setBlknr x).excess = m.excess :=
  excess_congr rfl rfl (by rw [Iom.setBlknr, Iom.superBlock_setSuperBlock])

theorem excess_addFreeBlocks {d : ℤ} (h : m.BlockRoom d) : (m.addFreeBlocks d).excess = m.excess + d := by
  have hdisk := freeBlocks_addFreeBlocks h
  have hclear : (m.addFreeBlocks d).clearBlocks = m.clearBlocks := (rfl)
  simp only [Iom.freeBlocks, Prod.mk.injEq] at hdisk
  unfold Iom.excess
  rw [hclear, hdisk.2]
  omega

/-- Taking a block lowers both numbers. -/
theorem excess_takeBlock (hroom : m.BlockRoom (-1)) (hb : b < m.maxBlock) (hbit : m.dbit b = false) :
    (m.takeBlock b).excess = m.excess := by
  have hset : (m.setDbmap (setBit m.dbmap b)).clearBlocks + 1 = m.clearBlocks := clearCount_setBit hb hbit
  have hadd : (m.takeBlock b).excess = (m.setDbmap (setBit m.dbmap b)).excess + -1 :=
    excess_addFreeBlocks (m := m.setDbmap (setBit m.dbmap b)) hroom
  have hsb : (m.setDbmap (setBit m.dbmap b)).superBlock = m.superBlock := (rfl)
  rw [hadd]
  unfold Iom.excess
  rw [hsb]
  omega

/-- Releasing one raises the counter, and the clear bits at most as much. -/
theorem excess_freeBlock (hroom : m.BlockRoom 1) : m.excess ≤ (m.freeBlock b).excess := by
  have hclear : (m.setDbmap (clearBit m.dbmap b)).clearBlocks ≤ m.clearBlocks + 1 := clearCount_clearBit_le
  have hadd : (m.freeBlock b).excess = (m.setDbmap (clearBit m.dbmap b)).excess + 1 :=
    excess_addFreeBlocks (m := m.setDbmap (clearBit m.dbmap b)) hroom
  have hsb : (m.setDbmap (clearBit m.dbmap b)).superBlock = m.superBlock := (rfl)
  rw [hadd]
  unfold Iom.excess
  rw [hsb]
  omega

/-- Records that name themselves and have one pointer, and a counter above the number of clear bits. -/
structure Iom.Overcounts (m : Iom) : Prop where
  mounted : m.Mounted
  records : ∀ k < m.inodeNum, (m.inode k).Fits m.inodeNum
  excess : 0 < m.excess

theorem Iom.Overcounts.not_exact (h : m.Overcounts) : ¬m.CountersExact := fun hc => by
  have hpos := h.excess
  have hblocks := hc.blocks
  unfold Iom.excess at hpos
  omega

namespace Iom.Overcounts
variable (h : m.Overcounts)
include h

theorem of_le (hm : m'.Mounted) (hcs : m'.clusterSize = m.clusterSize) (hr : ∀ k < m.inodeNum, (m'.inode k).Fits m.inodeNum)
    (he : m.excess ≤ m'.excess) : m'.Overcounts := by
  have hnum : m'.inodeNum = m.inodeNum := by rw [Iom.inodeNum, hcs]; rfl
  exact ⟨hm,hnum ▸ hr,lt_of_lt_of_le h.excess he⟩

theorem inodeNum_pos : 0 < m.inodeNum := by
  have := h.mounted.inodeNum_le
  omega

theorem setIbmap (x : Mem) : (m.setIbmap x).Overcounts := h.of_le h.mounted.setIbmap rfl h.records le_rfl
theorem setFile (fid : ℕ) (ft : FileTable) : (m.setFile fid ft).Overcounts :=
  h.of_le h.mounted.setFile rfl h.records le_rfl

theorem onDev (hd : m.OnDev m') : m'.Overcounts := by
  have hm := hd.mounted h.mounted
  obtain ⟨x,rfl⟩ := hd
  exact h.of_le hm rfl h.records le_rfl

theorem addFreeInodes (x : ℤ) : (m.addFreeInodes x).Overcounts :=
  h.of_le h.mounted.addFreeInodes rfl h.records (excess_addFreeInodes x).ge

theorem setInoHint (x : ℕ) : (m.setInoHint x).Overcounts :=
  h.of_le h.mounted.setInoHint rfl h.records (excess_setInoHint x).ge

theorem setBlknr (x : ℕ) : (m.setBlknr x).Overcounts := h.of_le h.mounted.setBlknr rfl h.records (excess_setBlknr x).ge

theorem setInode (hw : w.Fits m.inodeNum) (k : ℕ) : (m.setInode k w).Overcounts := by
  refine h.of_le h.mounted.setInode rfl (fun j hj => ?_) le_rfl
  rw [inode_setInode]
  by_cases hjk : j = k
  · rw [hjk, Function.update_self]
    exact hw
  · rw [Function.update_of_ne hjk]
    exact h.records j hj

theorem takeInode (k : ℕ) : (m.takeInode k).Overcounts := ((h.setIbmap _).setInoHint _).addFreeInodes _

theorem freeInode (k : ℕ) : (m.freeInode k).Overcounts :=
  ((h.setIbmap _).setInode (Inode.fits_zero h.inodeNum_pos) k).addFreeInodes _

theorem takeBlock (hroom : m.BlockRoom (-1)) (hb : b < m.maxBlock) (hbit : m.dbit b = false) : (m.takeBlock b).Overcounts :=
  h.of_le h.mounted.takeBlock rfl h.records (excess_takeBlock hroom hb hbit).ge

theorem freeBlock (hroom : m.BlockRoom 1) : (m.freeBlock b).Overcounts :=
  h.of_le h.mounted.freeBlock rfl h.records (excess_freeBlock hroom)

theorem addLink (f : UInt32 → UInt32) (hk : k < m.inodeNum) : (m.addLink f k).Overcounts :=
  h.setInode (w := { m.inode k with iLinksCount := f (m.inode k).iLinksCount }) ⟨(h.records k hk).1,(h.records k hk).2⟩ k

end Iom.Overcounts

/-! ## The calls -/

namespace Iom.Overcounts
variable (h : s.iom.Overcounts)
include h

theorem wp_updateMetadata {Q : Unit → Sys → Prop} (hQ : ∀ s', s'.iom.Overcounts → Q () s') : wp True updateMetadata Q e s :=
  wp_updateMetadata_any h.mounted (fun s1 h1 _ => hQ s1 (h.onDev h1))

theorem wp_lab4Createfile {mode : ℕ} : wp True (lab4Createfile p name mode) (fun _ s' => s'.iom.Overcounts) e s := by
  unfold lab4Createfile
  rw [wp_ite, wp_pure]
  refine ⟨fun _ => h,fun _ => ?_⟩
  rw [wp_bind]
  apply wp_lab4Lookup_any h.mounted
  rintro ⟨res,d,x⟩ s1 h1
  rw [← h1] at h
  dsimp only
  rw [wp_ite, wp_pure]
  refine ⟨fun _ => h,fun _ => ?_⟩
  rw [wp_ite, wp_pure]
  refine ⟨fun _ => h,fun _ => ?_⟩
  rw [wp_bind]
  refine wp_allocNewInode h.mounted (fun _ => trivial) (fun s2 _ h2 => ?_) (fun s2 k _ h2 hk _ => ?_)
  · rw [wp_bind]
    exact wp_restoreIbmap_none trivial h2
  have hk' := UInt32.toNat_ofNat_index h.mounted hk
  replace h : s2.iom.Overcounts := h2 ▸ h.takeInode k
  replace hk : k < s2.iom.inodeNum := by
    rw [h2]
    exact hk
  simp only [wp_bind, wp_getgid, wp_getuid, wp_timeNull]
  rw [wp_malloc, wp_ite, wp_pure]
  refine ⟨fun _ => h,fun _ => ?_⟩
  rw [wp_bind, wp_malloc, wp_ite, wp_pure]
  refine ⟨fun _ => h,fun _ => ?_⟩
  rw [wp_bind, wp_getIom, wp_bind]
  apply wp_pread_any
  rintro ⟨res,buf⟩ s5 h5
  replace h5 : s5.iom = s2.iom := h5
  replace h : s5.iom.Overcounts := h5 ▸ h
  dsimp only
  rw [wp_ite, wp_pure]
  refine ⟨fun _ => h,fun _ => ?_⟩
  rw [wp_bind, wp_lift]
  refine ⟨fun _ => trivial,?_⟩
  rintro ⟨found,i⟩ _
  rw [wp_bind]
  apply wp_writeInodeToItble h.mounted (by rw [h5, hk']; exact hk)
  intro s6 h6
  replace h : s6.iom.Overcounts := by
    rw [h6]
    refine h.setInode ⟨?_,fun _ _ => rfl⟩ _
    rw [h5, hk']
    exact hk
  rw [if_neg (by decide), wp_bind]
  apply wp_pwrite_any
  intro _ s7 h7 _
  replace h := h.onDev h7
  rw [wp_bind]
  refine wp_bumpFreeInodes (fun _ => trivial) (fun s8 _ h8 => ?_)
  replace h : s8.iom.Overcounts := h8 ▸ h.addFreeInodes _
  rw [wp_bind]
  apply wp_updateSb_any
  intro _ s9 h9 _
  replace h := h.onDev h9
  rw [wp_bind]
  apply wp_updateIbmap_any h.mounted
  intro _ s10 h10 _
  replace h := h.onDev h10
  rw [wp_bind]
  apply wp_updateItble_any
  intro _ s11 h11 _
  rw [wp_pure]
  exact h.onDev h11

theorem wp_doMkdir : wp True (doMkdir p name) (fun _ s' => s'.iom.Overcounts) e s := by
  unfold doMkdir
  rw [wp_bind]
  apply wp_lab4Lookup_any h.mounted
  rintro ⟨res,d,x⟩ s1 h1
  rw [← h1] at h
  dsimp only
  rw [wp_ite, wp_pure]
  refine ⟨fun _ => h,fun _ => ?_⟩
  rw [wp_bind]
  refine wp_allocNewInode h.mounted (fun _ => trivial) (fun s2 _ h2 => ?_) (fun s2 k _ h2 hk _ => ?_)
  · rw [wp_bind]
    exact wp_restoreIbmap_none trivial h2
  have hk' := UInt32.toNat_ofNat_index h.mounted hk
  replace h : s2.iom.Overcounts := h2 ▸ h.takeInode k
  replace hk : k < s2.iom.inodeNum := by
    rw [h2]
    exact hk
  rw [wp_bind]
  refine wp_allocBlockInbmap h.mounted (fun s3 b h3 => ?_) (fun s3 b hroom h3 hb hbit _ => ?_)
  · dsimp only
    rw [if_pos rfl, wp_bind]
    exact wp_restoreDbmap_none trivial h3
  replace h : s3.iom.Overcounts := h3 ▸ h.takeBlock hroom hb hbit
  replace hk : k < s3.iom.inodeNum := by
    rw [h3]
    exact hk
  dsimp only
  rw [if_neg (by decide), wp_bind, wp_malloc, wp_ite, wp_pure]
  refine ⟨fun _ => h,fun _ => ?_⟩
  rw [wp_bind]
  apply wp_modifyIom_any
  intro s5 h5
  replace h5 : s5.iom = s3.iom.setBlknr b := h5
  replace h : s5.iom.Overcounts := h5 ▸ h.setBlknr b
  replace hk : k < s5.iom.inodeNum := by
    rw [h5]
    exact hk
  simp only [wp_bind, wp_getIom, wp_getgid, wp_getuid, wp_timeNull]
  rw [wp_malloc, wp_ite, wp_pure]
  refine ⟨fun _ => h,fun _ => ?_⟩
  rw [wp_ite, wp_undefined]
  refine ⟨fun _ => trivial,fun _ => ?_⟩
  rw [wp_bind, wp_malloc, wp_ite, wp_pure]
  refine ⟨fun _ => h,fun _ => ?_⟩
  rw [wp_bind]
  apply wp_pread_any
  rintro ⟨res,buf⟩ s8 h8
  replace h8 : s8.iom = s5.iom := h8
  replace h : s8.iom.Overcounts := h8 ▸ h
  dsimp only
  rw [wp_ite, wp_pure]
  refine ⟨fun _ => h,fun _ => ?_⟩
  rw [wp_bind, wp_lift]
  refine ⟨fun _ => trivial,?_⟩
  rintro ⟨found,i⟩ _
  rw [wp_bind]
  apply wp_writeInodeToItble h.mounted (by rw [h8, hk']; exact hk)
  intro s9 h9
  replace h : s9.iom.Overcounts := by
    rw [h9]
    refine h.setInode ⟨?_,fun j hj => Function.update_of_ne hj _ _⟩ _
    rw [h8, hk']
    exact hk
  rw [if_neg (by decide), wp_bind]
  apply wp_pwrite_any
  intro _ s10 h10 _
  replace h := h.onDev h10
  rw [wp_bind]
  apply wp_pwrite_any
  intro _ s11 h11 _
  replace h := h.onDev h11
  rw [wp_bind]
  refine wp_bumpLink_any (fun _ => trivial) (fun s12 hp h12 => ?_)
  replace h : s12.iom.Overcounts := h12 ▸ h.addLink _ hp
  rw [wp_bind]
  apply h.wp_updateMetadata
  intro s13 h13
  rw [wp_pure]
  exact h13

/-- With an error the bitmap may have been read back from the device, and nothing is said. -/
theorem wp_unlinkData (hz : ∀ j, j ≠ 0 → v.iBlocks j = 0) {Q : ℤ → Sys → Prop} (herr : ∀ s', Q lab4Error s')
    (hok : ∀ s', s'.iom.Overcounts → s'.iom.inodeNum = s.iom.inodeNum → Q lab4Success s') : wp True (unlinkData v) Q e s := by
  unfold unlinkData
  rw [wp_ite, wp_pure]
  refine ⟨fun _ => hok s h rfl,fun _ => ?_⟩
  rw [wp_bind]
  refine wp_deleteBlockInbmap_any h.mounted (fun s1 b hroom h1 => ?_)
  have hn : s1.iom.inodeNum = s.iom.inodeNum := by
    rw [h1]
    rfl
  replace h : s1.iom.Overcounts := h1 ▸ h.freeBlock hroom
  rw [wp_bind]
  refine wp_deleteBlock_one h.mounted hz (fun s2 _ => ?_) (fun s2 h2 => ?_)
  · rw [if_pos rfl]
    refine wp_bind_any (fun _ s3 => ?_)
    rw [wp_pure]
    exact herr s3
  · rw [if_neg (by decide), wp_pure]
    refine hok s2 (h.onDev h2) (Eq.trans ?_ hn)
    exact h2.congr (f := Iom.inodeNum) (fun _ _ => rfl)

theorem wp_doUnlink : wp True (doUnlink p name) (fun r s' => r = lab4Success → s'.iom.Overcounts) e s := by
  unfold doUnlink
  rw [wp_bind]
  apply wp_lab4Lookup_any h.mounted
  rintro ⟨res,d,x⟩ s1 h1
  rw [← h1] at h
  dsimp only
  rw [wp_ite, wp_pure]
  refine ⟨fun _ _ => h,fun _ => ?_⟩
  rw [wp_ite, wp_pure]
  refine ⟨fun _ _ => h,fun _ => ?_⟩
  rw [wp_bind]
  refine wp_doReadInode (fun s2 h2 _ => ?_) (fun _ _ => trivial) (fun s2 h2 _ hk => ?_)
  · rw [wp_pure, h2]
    exact fun _ => h
  have hfits := h.records _ hk
  rw [← h2] at h hfits
  dsimp only
  generalize hv : ({ s1.iom.inode d.dIno.toNat with iLinksCount := (s1.iom.inode d.dIno.toNat).iLinksCount - 1 } : Inode) = v
  have hvfits : v.Fits s2.iom.inodeNum := by
    rw [← hv, ← h2]
    exact ⟨hfits.ino,hfits.tail⟩
  -- the rest writes an entry and flushes
  have hrest : ∀ s3, s3.iom.Overcounts →
      wp True (writeBackEntry p d x >>= fun _ => updateMetadata >>= fun _ => pure lab4Success)
        (fun r s' => r = lab4Success → s'.iom.Overcounts) e s3 := fun s3 h3 => by
    rw [wp_bind]
    apply wp_writeBackEntry_any
    intro s4 h4
    rw [wp_bind]
    refine (h3.onDev h4).wp_updateMetadata (fun s5 h5 => ?_)
    rw [wp_pure]
    exact fun _ => h5
  have herror : ∀ s3 : Sys, lab4Error = lab4Success → s3.iom.Overcounts := fun _ hn => absurd hn (by decide)
  rw [wp_bind]
  unfold unlinkInode
  rw [wp_ite, wp_pure, if_neg (show ¬lab4Success = lab4Error by decide)]
  refine ⟨fun _ => hrest s2 h,fun _ => ?_⟩
  rw [wp_bind]
  refine h.wp_unlinkData hvfits.tail (fun s3 => ?_) (fun s3 h3 hn => ?_)
  · rw [if_pos rfl, wp_pure, if_pos rfl, wp_pure]
    exact herror s3
  · rw [if_neg (by decide), wp_bind]
    refine wp_deleteInode h3.mounted (hn ▸ hvfits.ino) (fun _ => trivial) (fun s4 _ h4 => ?_)
    rw [if_neg (by decide), wp_pure, if_neg (by decide)]
    exact hrest s4 (h4 ▸ h3.freeInode _)

theorem wp_doRmdir : wp True (doRmdir p name) (fun r s' => r = lab4Success → s'.iom.Overcounts) e s := by
  unfold doRmdir
  rw [wp_bind, wp_getIom, wp_bind]
  apply wp_lab4Lookup_any h.mounted
  rintro ⟨res,d,x⟩ s1 h1
  rw [← h1] at h
  have herror : ∀ s' : Sys, lab4Error = lab4Success → s'.iom.Overcounts := fun _ hn => absurd hn (by decide)
  dsimp only
  rw [wp_ite, wp_pure]
  refine ⟨fun _ => herror s1,fun _ => ?_⟩
  rw [wp_ite, wp_pure]
  refine ⟨fun _ _ => h,fun _ => ?_⟩
  rw [wp_bind]
  refine wp_doReadInode (fun s2 _ _ => ?_) (fun _ _ => trivial) (fun s2 h2 _ hk => ?_)
  · dsimp only
    refine wp_bind_any (fun _ s3 => wp_bind_any (fun _ s4 => ?_))
    rw [wp_pure]
    exact herror s4
  have hino := (h.records _ hk).ino
  rw [← h2] at h
  dsimp only
  rw [wp_bind]
  apply wp_checkDirDeletable_any
  intro res s3 h3
  have hnum : s3.iom.inodeNum = s1.iom.inodeNum := by rw [h3, h2]
  rw [← h3] at h
  rw [← hnum] at hino
  rw [wp_ite, wp_pure]
  refine ⟨fun _ => herror s3,fun _ => ?_⟩
  rw [wp_ite, wp_pure]
  refine ⟨fun _ _ => h,fun _ => ?_⟩
  rw [wp_bind]
  refine wp_deleteInode h.mounted hino (fun _ => trivial) (fun s4 _ h4 => ?_)
  replace h : s4.iom.Overcounts := h4 ▸ h.freeInode _
  rw [if_neg (by decide), wp_bind]
  refine wp_deleteBlockInbmap_any h.mounted (fun s5 b hroom h5 => ?_)
  replace h : s5.iom.Overcounts := h5 ▸ h.freeBlock hroom
  rw [wp_bind, wp_malloc, wp_ite, wp_undefined]
  refine ⟨fun _ => trivial,fun _ => ?_⟩
  rw [wp_bind, wp_malloc, wp_ite, wp_undefined]
  refine ⟨fun _ => trivial,fun _ => ?_⟩
  rw [wp_bind]
  apply wp_pread_any
  rintro ⟨res,buf⟩ s8 h8
  replace h : s8.iom.Overcounts := (show s8.iom = s5.iom from h8) ▸ h
  dsimp only
  rw [wp_ite]
  refine ⟨fun _ => wp_bind_any (fun _ s9 => wp_bind_any (fun _ s10 => wp_bind_any (fun _ s11 => ?_))),fun _ => ?_⟩
  · rw [wp_pure]
    exact herror s11
  rw [wp_bind]
  apply wp_pwrite_any
  intro res s9 h9 _
  replace h := h.onDev h9
  rw [wp_ite]
  refine ⟨fun _ => wp_bind_any (fun _ s10 => wp_bind_any (fun _ s11 => wp_bind_any (fun _ s12 =>
    wp_bind_any (fun _ s13 => ?_)))),fun _ => ?_⟩
  · rw [wp_pure]
    exact herror s13
  rw [wp_bind]
  apply wp_writeBackEntry_any
  intro s10 h10
  replace h := h.onDev h10
  rw [wp_bind]
  refine wp_bumpLink_any (fun _ => trivial) (fun s11 hp h11 => ?_)
  replace h : s11.iom.Overcounts := h11 ▸ h.addLink _ hp
  rw [wp_bind]
  apply h.wp_updateMetadata
  intro s12 h12
  rw [wp_pure]
  exact fun _ => h12

omit h in
/-- The loop writes to the device and to its handle. -/
theorem wp_writeLoop {fid offset fuel size : ℕ} {buf : Mem} {blocknr x : ℤ} {Q : Option (Inode × ℤ) → Sys → Prop}
    (h : s.iom.Overcounts) (hv : v.Fits s.iom.inodeNum) (hnone : ∀ s', s'.iom.Overcounts → Q none s')
    (hsome : ∀ s' v' x', s'.iom.Overcounts → v'.Fits s'.iom.inodeNum → Q (some (v',x')) s') :
    wp True (writeLoop fid buf offset blocknr fuel size v x) Q e s := by
  induction fuel generalizing size v x s with
  | zero =>
    rw [writeLoop, wp_ite, wp_pure, wp_undefined]
    exact ⟨fun _ => hsome s v x h hv,fun _ => trivial⟩
  | succ fuel ih =>
    have hnext : ∀ (s1 s2 : Sys) (ft : FileTable) (y : Int64), s.iom.OnDev s1.iom → s2.iom = s1.iom.setFile fid ft →
        s2.iom.Overcounts ∧ ({ v with iSize := y } : Inode).Fits s2.iom.inodeNum := fun s1 s2 ft y h1 h2 => by
      have hnum : s2.iom.inodeNum = s.iom.inodeNum := by
        have hdev : s1.iom.inodeNum = s.iom.inodeNum := h1.congr (f := Iom.inodeNum) (fun _ _ => rfl)
        rw [h2, ← hdev]
        rfl
      rw [hnum]
      exact ⟨h2 ▸ (h.onDev h1).setFile fid ft,hv.ino,hv.tail⟩
    rw [writeLoop, wp_ite, wp_pure]
    refine ⟨fun _ => hsome s v x h hv,fun _ => ?_⟩
    rw [wp_bind, wp_getIom]
    dsimp only
    rw [wp_ite]
    refine ⟨fun _ => ?_,fun _ => ?_⟩
    · rw [wp_bind]
      apply wp_pwrite_any
      intro w s1 h1 _
      rw [wp_ite, wp_pure]
      refine ⟨fun _ => hnone s1 (h.onDev h1),fun _ => ?_⟩
      rw [wp_bind]
      apply wp_modifyIom_any
      intro s2 h2
      obtain ⟨h3,hv3⟩ := hnext s1 s2 _ _ h1 h2
      exact ih h3 hv3
    · rw [wp_bind, wp_malloc, wp_ite, wp_undefined]
      refine ⟨fun _ => trivial,fun _ => ?_⟩
      rw [wp_bind]
      apply wp_pwrite_any
      intro w s1 h1 _
      rw [wp_ite, wp_pure]
      refine ⟨fun _ => hnone s1 (h.onDev h1),fun _ => ?_⟩
      rw [wp_bind]
      apply wp_modifyIom_any
      intro s2 h2
      obtain ⟨h3,hv3⟩ := hnext s1 s2 _ _ h1 h2
      exact ih h3 hv3

theorem wp_writeBlock {fid size offset : ℕ} {buf : Mem} {blocknr : ℤ} (hv : v.Fits s.iom.inodeNum) :
    wp True (writeBlock fid buf size offset v blocknr) (fun _ s' => s'.iom.Overcounts) e s := by
  unfold writeBlock
  rw [wp_bind, wp_env, wp_bind]
  apply wp_indeterminate_any
  intro w s1 h1
  rw [← h1] at h hv
  rw [wp_bind]
  refine wp_writeLoop h hv (fun s2 h2 => ?_) (fun s2 v' w' h2 hv' => ?_)
  · rw [wp_pure]
    exact h2
  dsimp only
  rw [wp_bind]
  apply wp_writeInodeToItble h2.mounted hv'.ino
  intro s3 h3
  replace h : s3.iom.Overcounts := h3 ▸ h2.setInode hv' _
  rw [if_neg (by decide), wp_bind]
  apply wp_updateSb_any
  intro _ s4 h4 _
  replace h := h.onDev h4
  rw [wp_bind]
  apply wp_updateItble_any
  intro _ s5 h5 _
  replace h := h.onDev h5
  rw [wp_bind]
  apply wp_updateDbmap_any h.mounted
  intro _ s6 h6 _
  rw [wp_pure]
  exact h.onDev h6

theorem wp_doWrite {fid size offset : ℕ} {buf : Mem} :
    wp True (doWrite fid buf size offset) (fun _ s' => s'.iom.Overcounts) e s := by
  unfold doWrite
  rw [wp_bind, wp_getIom, wp_ite, wp_undefined]
  refine ⟨fun _ => trivial,fun _ => ?_⟩
  rw [wp_bind]
  apply wp_modifyIom_any
  intro s1 h1
  replace h : s1.iom.Overcounts := h1 ▸ h.setFile _ _
  rw [wp_bind]
  refine wp_doReadInode (fun s2 h2 _ => ?_) (fun _ _ => trivial) (fun s2 h2 _ hk => ?_)
  · rw [wp_pure, h2]
    exact h
  have hv := h.records _ hk
  rw [← h2] at h hv
  dsimp only
  rw [wp_ite]
  refine ⟨fun _ => ?_,fun _ => h.wp_writeBlock (h2 ▸ hv)⟩
  rw [wp_bind]
  refine wp_allocBlockInbmap h.mounted (fun s3 b h3 => ?_) (fun s3 b hroom h3 hb hbit _ => ?_)
  · dsimp only
    rw [if_pos rfl, wp_bind]
    exact wp_restoreDbmap_none trivial h3
  have hnum3 : s3.iom.inodeNum = s2.iom.inodeNum := by
    rw [h3]
    rfl
  replace h : s3.iom.Overcounts := h3 ▸ h.takeBlock hroom hb hbit
  dsimp only
  rw [if_neg (by decide)]
  refine h.wp_writeBlock ⟨?_,fun j hj => ?_⟩
  · rw [hnum3, ← h2]
    exact hv.ino
  · rw [← h2]
    exact (Function.update_of_ne hj _ _).trans (hv.tail j hj)

end Iom.Overcounts

/-! ## Runs -/

/-- A directory operation, or a write through a handle in slot `fid`. -/
inductive CountedCall
  | request (q : Request)
  | write (fid : ℕ) (ft : FileTable) (buf : Mem) (size offset : ℕ)

namespace CountedCall

def run : CountedCall → M ℤ
  | request q => q.run
  | write fid ft buf size offset => do
    modifyIom (fun m => m.setFile fid ft)
    doWrite fid buf size offset

/-- Success is 0, and of a write that it returns no error. -/
def Succeeds (_ : Env) (_ : Sys) : CountedCall → ℤ → Prop
  | request _, r => r = lab4Success
  | write .., r => 0 ≤ r

end CountedCall

theorem Iom.Overcounts.of_call {q : CountedCall} {r : ℤ} {s' : Sys} (h : s.iom.Overcounts) (hq : q.Succeeds e s r)
    (hrun : q.run e s = some (r,s')) : s'.iom.Overcounts := by
  cases q with
  | request q =>
    have hr : r = lab4Success := hq
    replace hrun : q.run e s = some (r,s') := hrun
    cases q with
    | create D x mode =>
      have hwp : wp True (Request.create D x mode).run (fun _ s' => s'.iom.Overcounts) e s :=
        Request.wp_create.mpr h.wp_lab4Createfile
      exact hwp.elim hrun
    | mkdir D x => exact (Request.wp_mkdir.mpr h.wp_doMkdir).elim hrun
    | unlink D x => exact (Request.wp_unlink.mpr h.wp_doUnlink).elim hrun hr
    | rmdir D x => exact (Request.wp_rmdir.mpr h.wp_doRmdir).elim hrun hr
  | write fid ft buf size offset =>
    have hwp : wp True (CountedCall.write fid ft buf size offset).run (fun _ s' => s'.iom.Overcounts) e s := by
      unfold CountedCall.run
      rw [wp_bind]
      apply wp_modifyIom_any
      intro s1 h1
      have h' : s1.iom.Overcounts := h1 ▸ h.setFile fid ft
      exact h'.wp_doWrite
    exact hwp.elim hrun

theorem overcounts_of_reached {t : Sys} (h : s.iom.Overcounts) (hr : Reached CountedCall.run CountedCall.Succeeds s t) :
    t.iom.Overcounts :=
  hr.invariant (I := fun s => s.iom.Overcounts) h (fun _ _ _ _ _ h hq hrun => h.of_call hq hrun)

/-! ## A new volume -/

section Fresh
variable {d : Device} {root : Inode} {heap : ℕ → Mem} {x y : ℤ} (hsec : IsSector d.blksszget)
  (hroot : DirRecord lab4RootIno (4 * (openDevice d).clusterSize) root)
include hsec

/-- The scan covers no more blocks than format counts. -/
theorem fresh_maxBlock_le : (freshIom d root heap x y).maxBlock ≤ (newSuperBlock d).sbDareaSize.toNat := by
  have hcluster : (freshIom d root heap x y).sbi.clusterSize = (openDevice d).clusterSize := (fresh_mounted hsec).sbiCluster
  rw [Iom.maxBlock, hcluster, fresh_dareaSize hsec]
  exact Nat.div_le_of_le_mul (Nat.mod_le _ _)

include hroot

/-- Format counts every block, and sets the bit of the first. -/
theorem fresh_overcounts (hq : (newSuperBlock d).sbDareaSize ≠ 0) : (freshIom d root heap x y).Overcounts := by
  have hcs := fresh_cluster_le hsec
  have hm : (freshIom d root heap x y).Mounted := fresh_mounted hsec
  have hmul := hm.inodeNum_mul
  refine ⟨hm,fun k hk => ?_,?_⟩
  · have hle := Nat.mul_le_mul_right lab4InodeEntrySize (Nat.succ_le_of_lt hk)
    rw [Nat.succ_mul, hmul] at hle
    have hentry : k * lab4InodeEntrySize + lab4InodeEntrySize ≤ (openDevice d).clusterSize := hle
    rw [fresh_inode hentry]
    exact rootTable_fits (show 2 < (openDevice d).clusterSize / lab4InodeEntrySize by unfold lab4InodeEntrySize; omega) hroot k
  · have hpos : 0 < (newSuperBlock d).sbDareaSize.toNat := Nat.pos_of_ne_zero (fun h0 => hq (UInt32.toNat_inj.mp h0))
    have hmax : (freshIom d root heap x y).maxBlock ≤ _ := fresh_maxBlock_le hsec
    have hclear : (freshIom d root heap x y).clearBlocks < (newSuperBlock d).sbDareaSize.toNat := by
      have hle : (freshIom d root heap x y).clearBlocks ≤ (freshIom d root heap x y).maxBlock := clearCount_le
      rcases Nat.eq_zero_or_pos (freshIom d root heap x y).maxBlock with h0 | h0
      · omega
      · have hlt : (freshIom d root heap x y).clearBlocks < (freshIom d root heap x y).maxBlock :=
          clearCount_lt h0 (fresh_dbit (by omega))
        omega
    unfold Iom.excess
    rw [fresh_superBlock hsec, newSuperBlock_freeBlocks]
    omega

end Fresh

/-! ## A creation on a new volume -/

theorem freeInodes_addFreeInodes {x : ℤ} (h : m.InodeRoom x) :
    (m.addFreeInodes x).superBlock.sbFreeInodes.toInt = m.superBlock.sbFreeInodes.toInt + x := by
  obtain ⟨hlo,hhi⟩ := addSigned_isSome.mp h.2
  rw [Iom.addFreeInodes, Iom.superBlock_setSuperBlock]
  exact Int32.toInt_ofInt_of_le hlo hhi

/-- A creation drops the counter by two and takes one bit. -/
theorem createFile_not_exact {a : ℕ} {d : DirEntry} (hm : m.Mounted) (hroom : m.InodeRoom (-1)) (hroom' : m.InodeRoom (-2))
    (hk : k < m.inodeNum) (hbit : m.ibit k = false) (h : m.CountersExact) : ¬(m.createFile k v a d).CountersExact := by
  intro hc
  have hinodes := hc.inodes
  have hdev : ((((m.takeInode k).setInode k v).writeEntry a d).addFreeInodes (-1)).OnDev (m.createFile k v a d) :=
    (Iom.OnDev.writeDev _ _ _ _).trans ((Iom.OnDev.writeDev _ _ _ _).trans (.writeDev _ _ _ _))
  rw [hdev.congr (f := fun m => m.superBlock.sbFreeInodes.toInt) (fun _ _ => rfl),
    hdev.congr (f := Iom.clearInodes) (fun _ _ => rfl)] at hinodes
  have htake : (((m.takeInode k).setInode k v).writeEntry a d).InodeRoom (-1) := (inodeRoom_takeInode hroom).mpr hroom'
  rw [freeInodes_addFreeInodes htake] at hinodes
  have hfirst : (((m.takeInode k).setInode k v).writeEntry a d).superBlock.sbFreeInodes.toInt =
      (m.takeInode k).superBlock.sbFreeInodes.toInt := (rfl)
  have hhint : ((m.setIbmap (setBit m.ibmap k)).setInoHint (k + 1)).InodeRoom (-1) := inodeRoom_setInoHint.mpr hroom
  have hsb : ((m.setIbmap (setBit m.ibmap k)).setInoHint (k + 1)).superBlock.sbFreeInodes = m.superBlock.sbFreeInodes :=
    (congrArg SuperBlock.sbFreeInodes superBlockCodec.get_put_self).trans rfl
  rw [hfirst, Iom.takeInode, freeInodes_addFreeInodes hhint, hsb, h.inodes] at hinodes
  have hnum : m.sbi.ibitmapSize / lab4InodeEntrySize = m.inodeNum := by
    rw [hm.ibitmapSize]
    rfl
  have hset : clearCount m.inodeNum (setBit m.ibmap k) + 1 = clearCount m.inodeNum m.ibmap := clearCount_setBit hk hbit
  have hafter : ((((((m.setIbmap (setBit m.ibmap k)).setInoHint (k + 1)).addFreeInodes (-1)).setInode k v).writeEntry a d).addFreeInodes
      (-1)).clearInodes = clearCount (m.sbi.ibitmapSize / lab4InodeEntrySize) (setBit m.ibmap k) := (rfl)
  rw [hafter, hnum] at hinodes
  unfold Iom.clearInodes at hinodes
  rw [hnum] at hinodes
  omega

/-- The first scan finds inode 3. -/
theorem fresh_inodeScan {d : Device} {root : Inode} {heap : ℕ → Mem} {x y : ℤ} (hsec : IsSector d.blksszget) :
    ∃ k, bitScan (freshIom d root heap x y).inodeNum (freshIom d root heap x y).clusterSize (freshIom d root heap x y).ibmap
      (freshIom d root heap x y).inodeNum (freshIom d root heap x y).sbi.lastAllocatedIno = some (true,k) ∧
      k < (freshIom d root heap x y).inodeNum := by
  have hm : (freshIom d root heap x y).Mounted := fresh_mounted hsec
  have hnum := hm.inodeNum_le
  have hcs := hm.cluster_le
  have hhint : (freshIom d root heap x y).sbi.lastAllocatedIno = 3 := by
    rw [fresh_sbi hsec]
    rfl
  have hlow := fresh_cluster_le hsec
  have hclear : (freshIom d root heap x y).ibit 3 = false := fresh_ibit (by omega)
  rw [hhint]
  refine ⟨_,bitScan_eq_found (i := 0) (fun j hj => ?_) (by omega) (fun j hj => by omega) hclear,?_⟩
  · rw [Nat.le_zero.mp hj, scanPos]
    omega
  · rw [scanPos]
    omega

/-- A file can be made in the root of a new volume with exact counters, and then they are not. -/
theorem fresh_creation {d : Device} {root : Inode} {heap : ℕ → Mem} {x y : ℤ} (he : e.Nominal) (hsec : IsSector d.blksszget)
    (hroot : DirRecord lab4RootIno (4 * (openDevice d).clusterSize) root) (hs : s.iom = freshIom d root heap x y)
    (hc : s.iom.CountersExact) :
    ∃ t, (Request.create 2 [97] 0).run e s = some (lab4Success,t) ∧ ¬t.iom.CountersExact := by
  have h : s.iom.Sane := hs ▸ fresh_sane hsec hroot
  have hD : s.iom.tree.kind 2 = some .dir := h.ledger.kind_root
  have hD2 : (s.iom.inode 2).iIno.toNat = 2 := h.ino_dir hD
  have hnum := h.mounted.inodeNum_le
  have hcount : s.iom.sbi.ibitmapSize / lab4InodeEntrySize = s.iom.inodeNum := by
    rw [h.mounted.ibitmapSize]
    rfl
  have hfew : s.iom.clearInodes ≤ s.iom.inodeNum := hcount ▸ clearCount_le
  have hroom : ∀ x : ℤ, -2 ≤ x → x ≤ 0 → s.iom.InodeRoom x := fun x hlo hhi => by
    have hboth := hc.inodes
    refine ⟨addSigned_isSome.mpr ?_,addSigned_isSome.mpr ?_⟩
    · rw [hc.memInodes]
      omega
    · omega
  have hcreate : s.iom.Creatable (s.iom.inode 2) [97] := by
    refine ⟨fun _ => by omega,fun _ => ?_,⟨hs ▸ fresh_inodeScan hsec,hroom _ (by omega) (by omega)⟩,?_,
      hroom _ (by omega) (by omega)⟩
    · rw [hD2]
      exact h.mounted.scan_isSome h.ledger hD (fun d => lookupTest_isSome (by decide) d)
    · refine slotLoop_isSome (fun _ => rfl) ?_
      have hslots := h.mounted.slots
      have hcs := h.mounted.cluster_le
      rw [Iom.Mounted.dir_size h.ledger hD]
      unfold lab4DirEntrySize at *
      omega
  have hrun : wp False (Request.create 2 [97] 0).run (fun r t => r = lab4Success ∧ ¬t.iom.CountersExact) e s := by
    refine Request.wp_create.mpr (wp_lab4Createfile he.io h.mounted (h.parent hD) (fun hn => hn ⟨he.malloc,hcreate⟩)
      (fun t _ hl => ?_) (fun t i _ _ _ hscan => ?_) (fun t _ hl _ => ?_) (fun _ hn => absurd he.malloc hn)
      (fun t k v found i _ _ _ hk hbit hroom hroom' _ _ ht => ⟨rfl,?_⟩))
    · simp [fnameSize] at hl
    · rw [hD2] at hscan
      have hslot := (Iom.Mounted.scan_found h.ledger hD (by decide) hscan).2
      rw [hs, fresh_tree hsec hroot] at hslot
      have hf := (SlotTree.rootTree_slot hslot).2
      match i, hf with
      | 0, hf => exact absurd (Prod.ext_iff.mp (Option.some.inj hf)).1 (show dotName ≠ [97] by decide)
      | 1, hf => exact absurd (Prod.ext_iff.mp (Option.some.inj hf)).1 (show dotdotName ≠ [97] by decide)
    · have hinode : s.iom.inode 2 = root := by
        rw [hs]
        exact fresh_inode_root hsec
      rw [hinode, hroot.links] at hl
      exact absurd hl (by decide)
    · rw [ht]
      exact createFile_not_exact h.mounted hroom hroom' hk hbit hc
  obtain ⟨r,t,hrun,rfl,ht⟩ := wp_false.mp hrun
  exact ⟨t,hrun,ht⟩

/-- The free counters are exact in every reachable state of no volume: a state without an exact counter is reached
from every format by one creation at most. If format counts a block at all, every state reached is one. -/
theorem free_counters_never_exact (he : e.Nominal) (hsec : IsSector s.iom.dev.blksszget) :
    ∃ s0, formatAndMount e s = some (true,s0) ∧
      (∃ t, Reached CountedCall.run CountedCall.Succeeds s0 t ∧ ¬t.iom.CountersExact) ∧
      (s0.iom.superBlock.sbDareaSize ≠ 0 → ∀ t, Reached CountedCall.run CountedCall.Succeeds s0 t → ¬t.iom.CountersExact) := by
  have hwp : wp False formatAndMount (fun ok s0 => ok = true ∧ ∃ root x y,
      DirRecord lab4RootIno (4 * (openDevice s.iom.dev).clusterSize) root ∧ s0.iom = freshIom s.iom.dev root e.heap x y) e s :=
    wp_formatAndMount he hsec (fun _ root x y hroot h => ⟨rfl,root,x,y,hroot,h⟩)
  obtain ⟨ok,s0,hrun,rfl,root,x,y,hroot,h0⟩ := wp_false.mp hwp
  refine ⟨s0,hrun,?_,fun hq t hr => ?_⟩
  · by_cases hc : s0.iom.CountersExact
    · obtain ⟨t,hmake,ht⟩ := fresh_creation he hsec hroot h0 hc
      exact ⟨t,Reached.refl.call (q := .request (.create 2 [97] 0)) (e := e) rfl hmake,ht⟩
    · exact ⟨s0,Reached.refl,hc⟩
  · rw [h0, fresh_superBlock hsec] at hq
    have hover : s0.iom.Overcounts := h0 ▸ fresh_overcounts hsec hroot hq
    exact (overcounts_of_reached hover hr).not_exact

/-- Right after a format of ten clusters six blocks are counted, and five bits are clear. -/
theorem free_counters_wrong_blank : ∃ s0, formatAndMount quietEnv (blankDisk 80) = some (true,s0) ∧ ¬s0.iom.CountersExact := by
  obtain ⟨s0,root,x,y,hrun,hroot,h0⟩ := blankDisk_fresh
  have hover : s0.iom.Overcounts := h0 ▸ fresh_overcounts (.inl rfl) hroot (by decide)
  exact ⟨s0,hrun,hover.not_exact⟩

theorem free_counters_never_exact_blank : ∃ s0, formatAndMount quietEnv (blankDisk 80) = some (true,s0) ∧
    ∃ t, Reached CountedCall.run CountedCall.Succeeds s0 t ∧ ¬t.iom.CountersExact := by
  obtain ⟨s0,hrun,h,_⟩ := free_counters_never_exact (e := quietEnv) (s := blankDisk 80) quietEnv_nominal (.inl rfl)
  exact ⟨s0,hrun,h⟩

end SimpleFS
