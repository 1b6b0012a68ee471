import SimpleFS.FirstFit
import SimpleFS.HintKept

/-! # The block hint over whole runs

Whatever directory, record or handle an operation is given, it leaves both copies of the block hint below
the number of blocks: an exit with an error has written nothing to the device, every other one flushes the
super block and the inode table behind its last write.
-/
namespace SimpleFS
open Bytes Machine Prog

variable {e : Env} {s : Sys} {n : ℕ} {p v : Inode} {name : List UInt8}

/-! ## Shared calls -/

/-- Which bit is cleared depends on the address in the record. -/
theorem wp_deleteBlockInbmap_any {Q : Unit → Sys → Prop} (hm : s.iom.Mounted)
    (h : ∀ s' b, s.iom.BlockRoom 1 → s'.iom = s.iom.freeBlock b → Q () s') : wp True (deleteBlockInbmap v) Q e s := by
  simp only [deleteBlockInbmap, scanDeleteDbmap, wp_bind, wp_getIom, hm.dbmap_eq]
  generalize toU32 (s.iom.blocknrInbmap v) = b
  rw [wp_ite, wp_undefined]
  refine ⟨fun _ => trivial,fun _ => ?_⟩
  rw [wp_setIom]
  refine wp_bumpFreeBlocks (fun _ => trivial) (fun s1 hroom h1 => h s1 b hroom ?_)
  rw [h1, lab4ClearBit_snd]
  rfl

theorem wp_checkDirDeletable_any {Q : ℤ → Sys → Prop} (h : ∀ r s', s'.iom = s.iom → Q r s') :
    wp True (checkDirDeletable v) Q e s := by
  unfold checkDirDeletable
  rw [wp_bind, wp_malloc, wp_ite, wp_pure]
  refine ⟨fun _ => h _ _ rfl,fun _ => ?_⟩
  rw [wp_bind, wp_getIom, wp_bind]
  apply wp_pread_any
  rintro ⟨res,buf⟩ s1 h1
  dsimp only
  rw [wp_ite, wp_pure]
  refine ⟨fun _ => h _ s1 h1,fun _ => ?_⟩
  rw [wp_bind, wp_lift]
  refine ⟨fun _ => trivial,?_⟩
  rintro ⟨found,i⟩ _
  rw [wp_ite, wp_pure, wp_pure]
  exact ⟨fun _ => h _ s1 h1,fun _ => h _ s1 h1⟩

/-- A record with one pointer: an error of `delete_block` comes from its only write. -/
theorem wp_deleteBlock_one {u : Prop} {Q : ℤ → Sys → Prop} (hm : s.iom.Mounted) (hz : ∀ j, j ≠ 0 → v.iBlocks j = 0)
    (herr : ∀ s', s'.iom = s.iom → Q lab4Error s') (hok : ∀ s', s.iom.OnDev s'.iom → Q lab4Success s') :
    wp u (deleteBlock v) Q e s := by
  have hdirect : ∀ {R : ℤ → Sys → Prop}, (∀ s', s'.iom = s.iom → R lab4Error s') →
      (∀ s', s.iom.OnDev s'.iom → R lab4Success s') →
      wp u (deleteDirect s.iom.clusterSize v [0,1,2,3,4,5,6,7,8,9,10,11]) R e s := by
    intro R herr hok
    have hrest : ∀ j ∈ ([1,2,3,4,5,6,7,8,9,10,11] : List (Fin 15)), v.iBlocks j = 0 := fun j hj => by
      refine hz j (fun h0 => ?_)
      subst h0
      revert hj
      decide
    rw [deleteDirect, wp_ite]
    refine ⟨fun _ => ?_,fun _ => wp_deleteDirect_zero _ hrest (hok s (.refl _))⟩
    rw [wp_bind, wp_pwrite]
    refine ⟨fun _ => ?_,fun _ => ?_⟩
    · rw [if_pos rfl, wp_pure]
      exact herr _ rfl
    · rw [if_neg hm.clusterSize_ne_error]
      exact wp_deleteDirect_zero _ hrest (hok _ (.writeDev _ _ _ _))
  unfold deleteBlock
  rw [wp_bind, wp_getIom, wp_bind]
  refine hdirect (fun s1 h1 => ?_) (fun s1 h1 => ?_)
  · rw [if_pos rfl, wp_pure]
    exact herr s1 h1
  · rw [if_neg (by decide), wp_bind]
    apply wp_deleteIndirect_zero (hz 12 (by decide))
    rw [wp_bind]
    apply wp_deleteIndirect_zero (hz 13 (by decide))
    rw [wp_bind]
    apply wp_deleteIndirect_zero (hz 14 (by decide))
    rw [wp_pure]
    exact hok s1 h1

namespace Iom.HintKept

theorem wp_restoreIbmap {Q : ℤ → Sys → Prop} (h : s.iom.HintKept n) (hQ : ∀ r s', s'.iom.HintKept n → Q r s') :
    wp True restoreIbmap Q e s :=
  SimpleFS.wp_restoreIbmap h.mem.mounted (fun r _ s1 _ h1 => hQ r s1 (h1 ▸ ⟨h.mem.setIbmap _,h.dev⟩))

theorem wp_restoreDbmap {Q : ℤ → Sys → Prop} (h : s.iom.HintKept n) (hQ : ∀ r s', s'.iom.HintKept n → Q r s') :
    wp True restoreDbmap Q e s :=
  SimpleFS.wp_restoreDbmap h.mem.mounted (fun r _ s1 _ h1 => hQ r s1 (h1 ▸ ⟨h.mem.setDbmap _,h.dev⟩))

theorem wp_restoreItble {Q : ℤ → Sys → Prop} (h : s.iom.HintKept n) (hQ : ∀ r s', s'.iom.HintKept n → Q r s') :
    wp True restoreItble Q e s := by
  refine SimpleFS.wp_restoreItble h.mem.mounted (fun r b s1 hb h1 => hQ r s1 ?_)
  rw [h1]
  rcases hb with ⟨_,rfl⟩ | ⟨_,rfl⟩
  · exact h
  · exact ⟨h.mem.reloadItble h.dev,h.dev⟩

end Iom.HintKept

/-- The common end of the operations that flush everything. -/
theorem Iom.Hinted.wp_updateMetadata {Q : Unit → Sys → Prop} (hio : e.IoOk) (h : s.iom.Hinted n)
    (hQ : ∀ s', s'.iom.HintKept n → Q () s') : wp True updateMetadata Q e s :=
  SimpleFS.wp_updateMetadata hio h.mounted (fun s1 h1 => hQ s1 (h1 ▸ h.flushAll))

/-! ## Creation -/

namespace Iom.HintKept
variable (h : s.iom.HintKept n) (hio : e.IoOk)
include h hio

theorem wp_lab4Createfile {mode : ℕ} : wp True (lab4Createfile p name mode) (fun _ s' => s'.iom.HintKept n) e s := by
  unfold lab4Createfile
  rw [wp_ite, wp_pure]
  refine ⟨fun _ => h,fun _ => ?_⟩
  rw [wp_bind]
  apply wp_lab4Lookup_any h.mem.mounted
  rintro ⟨res,d,x⟩ s1 h1
  rw [← h1] at h
  dsimp only
  rw [wp_ite, wp_pure]
  refine ⟨fun _ => h,fun _ => ?_⟩
  rw [wp_ite, wp_pure]
  refine ⟨fun _ => h,fun _ => ?_⟩
  rw [wp_bind]
  refine wp_allocNewInode h.mem.mounted (fun _ => trivial) (fun s2 _ h2 => ?_) (fun s2 k _ h2 hk _ => ?_)
  · rw [wp_bind]
    exact wp_restoreIbmap_none trivial h2
  have hk' := UInt32.toNat_ofNat_index h.mem.mounted hk
  replace h : s2.iom.HintKept n := h2 ▸ ⟨h.mem.takeInode k,h.dev⟩
  replace hk : k < s2.iom.inodeNum := by
    rw [h2]
    exact hk
  simp only [wp_bind, wp_getgid, wp_getuid, wp_timeNull]
  rw [wp_malloc, wp_ite, wp_pure]
  refine ⟨fun _ => h,fun _ => ?_⟩
  rw [wp_bind, wp_malloc, wp_ite, wp_pure]
  refine ⟨fun _ => h,fun _ => ?_⟩
  rw [wp_bind, wp_getIom, wp_bind]
  apply wp_pread_any
  rintro ⟨res,buf⟩ s5 h5
  replace h5 : s5.iom = s2.iom := h5
  replace h : s5.iom.HintKept n := h5 ▸ h
  dsimp only
  rw [wp_ite, wp_pure]
  refine ⟨fun _ => h,fun _ => ?_⟩
  rw [wp_bind, wp_lift]
  refine ⟨fun _ => trivial,?_⟩
  rintro ⟨found,i⟩ _
  rw [wp_bind]
  apply wp_writeInodeToItble h.mem.mounted (by rw [h5, hk']; exact hk)
  intro s6 h6
  replace h : s6.iom.Hinted n := by
    rw [h6]
    refine h.mem.setInode ⟨?_,fun _ _ => rfl⟩ _
    rw [h5, hk']
    exact hk
  rw [if_neg (by decide), wp_bind]
  apply wp_pwrite_any
  intro _ s7 h7 _
  replace h := h.onDev h7
  rw [wp_bind]
  refine wp_bumpFreeInodes (fun _ => trivial) (fun s8 _ h8 => ?_)
  replace h : s8.iom.Hinted n := h8 ▸ h.addFreeInodes _
  rw [wp_bind]
  apply wp_updateSb hio h.mounted
  intro s9 h9
  have h' : s9.iom.Hinted n := h9 ▸ h.writeDev _ _ _
  rw [wp_bind]
  apply wp_updateIbmap hio h'.mounted
  intro s10 h10
  have h'' : s10.iom.Hinted n := h10 ▸ h'.writeDev _ _ _
  rw [wp_bind]
  apply wp_updateItble hio h''.mounted
  intro s11 h11
  rw [wp_pure, h11, h10, h9]
  exact h.flushCreate

/-- The only operation that moves the hint in the super block. -/
theorem wp_doMkdir : wp True (doMkdir p name) (fun _ s' => s'.iom.HintKept n) e s := by
  unfold doMkdir
  rw [wp_bind]
  apply wp_lab4Lookup_any h.mem.mounted
  rintro ⟨res,d,x⟩ s1 h1
  rw [← h1] at h
  dsimp only
  rw [wp_ite, wp_pure]
  refine ⟨fun _ => h,fun _ => ?_⟩
  rw [wp_bind]
  refine wp_allocNewInode h.mem.mounted (fun _ => trivial) (fun s2 _ h2 => ?_) (fun s2 k _ h2 hk _ => ?_)
  · rw [wp_bind]
    exact wp_restoreIbmap_none trivial h2
  have hk' := UInt32.toNat_ofNat_index h.mem.mounted hk
  replace h : s2.iom.HintKept n := h2 ▸ ⟨h.mem.takeInode k,h.dev⟩
  replace hk : k < s2.iom.inodeNum := by
    rw [h2]
    exact hk
  rw [wp_bind]
  refine wp_allocBlockInbmap h.mem.mounted (fun s3 b h3 => ?_) (fun s3 b _ h3 hb _ _ => ?_)
  · dsimp only
    rw [if_pos rfl, wp_bind]
    exact wp_restoreDbmap_none trivial h3
  rw [h.mem.maxBlock] at hb
  replace h : s3.iom.HintKept n := h3 ▸ ⟨h.mem.takeBlock b,h.dev⟩
  replace hk : k < s3.iom.inodeNum := by
    rw [h3]
    exact hk
  dsimp only
  rw [if_neg (by decide), wp_bind, wp_malloc, wp_ite, wp_pure]
  refine ⟨fun _ => h,fun _ => ?_⟩
  rw [wp_bind]
  apply wp_modifyIom_any
  intro s5 h5
  replace h5 : s5.iom = s3.iom.setBlknr b := h5
  replace h : s5.iom.HintKept n := h5 ▸ ⟨h.mem.setBlknr hb,h.dev⟩
  replace hk : k < s5.iom.inodeNum := by
    rw [h5]
    exact hk
  simp only [wp_bind, wp_getIom, wp_getgid, wp_getuid, wp_timeNull]
  rw [wp_malloc, wp_ite, wp_pure]
  refine ⟨fun _ => h,fun _ => ?_⟩
  rw [wp_ite, wp_undefined]
  refine ⟨fun _ => trivial,fun _ => ?_⟩
  rw [wp_bind, wp_malloc, wp_ite, wp_pure]
  refine ⟨fun _ => h,fun _ => ?_⟩
  rw [wp_bind]
  apply wp_pread_any
  rintro ⟨res,buf⟩ s8 h8
  replace h8 : s8.iom = s5.iom := h8
  replace h : s8.iom.HintKept n := h8 ▸ h
  dsimp only
  rw [wp_ite, wp_pure]
  refine ⟨fun _ => h,fun _ => ?_⟩
  rw [wp_bind, wp_lift]
  refine ⟨fun _ => trivial,?_⟩
  rintro ⟨found,i⟩ _
  rw [wp_bind]
  apply wp_writeInodeToItble h.mem.mounted (by rw [h8, hk']; exact hk)
  intro s9 h9
  replace h : s9.iom.Hinted n := by
    rw [h9]
    refine h.mem.setInode ⟨?_,fun j hj => Function.update_of_ne hj _ _⟩ _
    rw [h8, hk']
    exact hk
  rw [if_neg (by decide), wp_bind]
  apply wp_pwrite_any
  intro _ s10 h10 _
  replace h := h.onDev h10
  rw [wp_bind]
  apply wp_pwrite_any
  intro _ s11 h11 _
  replace h := h.onDev h11
  rw [wp_bind]
  refine wp_bumpLink_any (fun _ => trivial) (fun s12 hp h12 => ?_)
  replace h : s12.iom.Hinted n := h12 ▸ h.addLink _ hp
  rw [wp_bind]
  apply h.wp_updateMetadata hio
  intro s13 h13
  rw [wp_pure]
  exact h13

/-! ## Removal -/

omit hio in
/-- The data of a record; with an error nothing was written. -/
theorem wp_unlinkData (hz : ∀ j, j ≠ 0 → v.iBlocks j = 0) {Q : ℤ → Sys → Prop}
    (herr : ∀ s', s'.iom.HintKept n → Q lab4Error s')
    (hok : ∀ s', s'.iom.Hinted n → s'.iom.inodeNum = s.iom.inodeNum → Q lab4Success s') : wp True (unlinkData v) Q e s := by
  unfold unlinkData
  rw [wp_ite, wp_pure]
  refine ⟨fun _ => hok s h.mem rfl,fun _ => ?_⟩
  rw [wp_bind]
  refine wp_deleteBlockInbmap_any h.mem.mounted (fun s1 b _ h1 => ?_)
  have hn : s1.iom.inodeNum = s.iom.inodeNum := by
    rw [h1]
    rfl
  replace h : s1.iom.HintKept n := h1 ▸ ⟨h.mem.freeBlock b,h.dev⟩
  rw [wp_bind]
  refine wp_deleteBlock_one h.mem.mounted hz (fun s2 h2 => ?_) (fun s2 h2 => ?_)
  · rw [if_pos rfl, wp_bind]
    rw [← h2] at h
    refine h.wp_restoreDbmap (fun _ s3 h3 => ?_)
    rw [wp_pure]
    exact herr s3 h3
  · rw [if_neg (by decide), wp_pure]
    refine hok s2 (h.mem.onDev h2) (Eq.trans ?_ hn)
    exact h2.congr (f := Iom.inodeNum) (fun _ _ => rfl)

omit hio in
/-- The record of a file. -/
theorem wp_unlinkInode (hv : v.Fits s.iom.inodeNum) {Q : ℤ → Sys → Prop} (herr : ∀ s', s'.iom.HintKept n → Q lab4Error s')
    (hok : ∀ s', s'.iom.Hinted n → Q lab4Success s') : wp True (unlinkInode v) Q e s := by
  unfold unlinkInode
  rw [wp_ite, wp_pure]
  refine ⟨fun _ => hok s h.mem,fun _ => ?_⟩
  rw [wp_bind]
  refine h.wp_unlinkData hv.tail (fun s1 h1 => ?_) (fun s1 h1 hn => ?_)
  · rw [if_pos rfl, wp_pure]
    exact herr s1 h1
  · rw [if_neg (by decide), wp_bind]
    refine wp_deleteInode h1.mounted (hn ▸ hv.ino) (fun _ => trivial) (fun s2 _ h2 => ?_)
    rw [if_neg (by decide), wp_pure]
    exact hok s2 (h2 ▸ h1.freeInode _)

theorem wp_doUnlink : wp True (doUnlink p name) (fun _ s' => s'.iom.HintKept n) e s := by
  unfold doUnlink
  rw [wp_bind]
  apply wp_lab4Lookup_any h.mem.mounted
  rintro ⟨res,d,x⟩ s1 h1
  rw [← h1] at h
  dsimp only
  rw [wp_ite, wp_pure]
  refine ⟨fun _ => h,fun _ => ?_⟩
  rw [wp_ite, wp_pure]
  refine ⟨fun _ => h,fun _ => ?_⟩
  rw [wp_bind]
  refine wp_doReadInode (fun s2 h2 _ => ?_) (fun _ _ => trivial) (fun s2 h2 _ hk => ?_)
  · rw [wp_pure, h2]
    exact h
  have hfits := h.mem.records _ hk
  have hless : Inode.Fits { s1.iom.inode d.dIno.toNat with iLinksCount := (s1.iom.inode d.dIno.toNat).iLinksCount - 1 }
      s2.iom.inodeNum := by
    rw [h2]
    exact ⟨hfits.ino,hfits.tail⟩
  replace h : s2.iom.HintKept n := h2 ▸ h
  dsimp only
  rw [wp_bind]
  refine h.wp_unlinkInode hless (fun s3 h3 => ?_) (fun s3 h3 => ?_)
  · rw [if_pos rfl, wp_pure]
    exact h3
  · rw [if_neg (by decide), wp_bind]
    apply wp_writeBackEntry_any
    intro s4 h4
    rw [wp_bind]
    apply (h3.onDev h4).wp_updateMetadata hio
    intro s5 h5
    rw [wp_pure]
    exact h5

theorem wp_doRmdir : wp True (doRmdir p name) (fun _ s' => s'.iom.HintKept n) e s := by
  unfold doRmdir
  rw [wp_bind, wp_getIom, wp_bind]
  apply wp_lab4Lookup_any h.mem.mounted
  rintro ⟨res,d,x⟩ s1 h1
  have hcs := h.mem.mounted.sbiCluster
  have hne := h.mem.mounted.clusterSize_ne_error
  rw [← h1] at h
  dsimp only
  rw [wp_ite, wp_pure]
  refine ⟨fun _ => h,fun _ => ?_⟩
  rw [wp_ite, wp_pure]
  refine ⟨fun _ => h,fun _ => ?_⟩
  rw [wp_bind]
  refine wp_doReadInode (fun s2 h2 _ => ?_) (fun _ _ => trivial) (fun s2 h2 _ hk => ?_)
  · rw [← h2] at h
    dsimp only
    rw [wp_bind]
    refine h.wp_restoreIbmap (fun _ s3 h3 => ?_)
    rw [wp_bind]
    refine h3.wp_restoreItble (fun _ s4 h4 => ?_)
    rw [wp_pure]
    exact h4
  have hino := (h.mem.records _ hk).ino
  rw [← h2] at h
  dsimp only
  rw [wp_bind]
  apply wp_checkDirDeletable_any
  intro res s3 h3
  have hnum : s3.iom.inodeNum = s1.iom.inodeNum := by rw [h3, h2]
  rw [← h3] at h
  rw [← hnum] at hino
  rw [wp_ite, wp_pure]
  refine ⟨fun _ => h,fun _ => ?_⟩
  rw [wp_ite, wp_pure]
  refine ⟨fun _ => h,fun _ => ?_⟩
  rw [wp_bind]
  refine wp_deleteInode h.mem.mounted hino (fun _ => trivial) (fun s4 _ h4 => ?_)
  replace h : s4.iom.HintKept n := h4 ▸ ⟨h.mem.freeInode _,h.dev⟩
  rw [if_neg (by decide), wp_bind]
  refine wp_deleteBlockInbmap_any h.mem.mounted (fun s5 b _ h5 => ?_)
  replace h : s5.iom.HintKept n := h5 ▸ ⟨h.mem.freeBlock b,h.dev⟩
  rw [wp_bind, wp_malloc, wp_ite, wp_undefined]
  refine ⟨fun _ => trivial,fun _ => ?_⟩
  rw [wp_bind, wp_malloc, wp_ite, wp_undefined]
  refine ⟨fun _ => trivial,fun _ => ?_⟩
  rw [wp_bind, hcs]
  apply wp_pread_ok hio (Int.natCast_nonneg _) le_rfl
  intro s8 h8
  dsimp only
  rw [if_neg hne, wp_bind]
  apply wp_pwrite_ok hio (Int.natCast_nonneg _)
  intro s9 h9
  replace h : s9.iom.Hinted n := by
    rw [h9, h8]
    exact h.mem.writeDev _ _ _
  rw [if_neg hne, wp_bind]
  apply wp_writeBackEntry_any
  intro s10 h10
  replace h := h.onDev h10
  rw [wp_bind]
  refine wp_bumpLink_any (fun _ => trivial) (fun s11 hp h11 => ?_)
  replace h : s11.iom.Hinted n := h11 ▸ h.addLink _ hp
  rw [wp_bind]
  apply h.wp_updateMetadata hio
  intro s12 h12
  rw [wp_pure]
  exact h12

/-! ## Writing -/

omit hio in
/-- One round of the loop at most; where it gives up, nothing was written. -/
theorem wp_writeLoop {fid size fuel : ℕ} {buf : Mem} {blocknr w : ℤ} {Q : Option (Inode × ℤ) → Sys → Prop}
    (hv : v.Fits s.iom.inodeNum) (hsize : size ≤ s.iom.clusterSize) (hnone : ∀ s', s'.iom.HintKept n → Q none s')
    (hsome : ∀ s' v' w', s'.iom.Hinted n → v'.Fits s'.iom.inodeNum → Q (some (v',w')) s') :
    wp True (writeLoop fid buf 0 blocknr fuel size v w) Q e s := by
  have hcs := h.mem.mounted.cluster_le
  rcases Nat.eq_zero_or_pos size with rfl | hpos
  · rw [writeLoop_zero, wp_pure]
    exact hsome s v w h.mem hv
  cases fuel with
  | zero =>
    rw [writeLoop, if_neg (by omega), wp_undefined]
    trivial
  | succ fuel =>
    have hrem : toU32 (s.iom.clusterSize - (0 : ℕ)) = s.iom.clusterSize - 0 := curRemain_eq (Nat.zero_le _) (by omega)
    have hmin : (if s.iom.clusterSize - 0 > size then size else s.iom.clusterSize - 0) = size := by
      split <;> omega
    have hleft : ∀ (x : Int64) (w' : ℤ) (s' : Sys), s'.iom.Hinted n → s'.iom.inodeNum = s.iom.inodeNum →
        wp True (writeLoop fid buf 0 blocknr fuel (size - size) { v with iSize := x } w') Q e s' := fun x w' s' h' hn => by
      rw [Nat.sub_self, writeLoop_zero, wp_pure]
      refine hsome s' _ _ h' ?_
      rw [hn]
      exact ⟨hv.ino,hv.tail⟩
    rw [writeLoop, if_neg (by omega), wp_bind, wp_getIom]
    dsimp only
    rw [hrem, hmin, wp_ite]
    refine ⟨fun _ => ?_,fun _ => ?_⟩
    · rw [wp_bind, wp_pwrite]
      refine ⟨fun _ => ?_,fun _ => ?_⟩
      · rw [if_pos rfl, wp_pure]
        exact hnone _ h
      · rw [if_neg (toS32_ne_error (by omega)), wp_bind]
        apply wp_modifyIom_any
        intro s1 h1
        exact hleft _ _ s1 (h1 ▸ (h.mem.writeDev _ _ _).setFile _ _) (by rw [h1]; rfl)
    · rw [wp_bind, wp_malloc, wp_ite, wp_undefined]
      refine ⟨fun _ => trivial,fun _ => ?_⟩
      rw [wp_bind, wp_pwrite]
      refine ⟨fun _ => ?_,fun _ => ?_⟩
      · rw [if_pos rfl, wp_pure]
        exact hnone _ h
      · rw [if_neg h.mem.mounted.clusterSize_ne_error, wp_bind]
        apply wp_modifyIom_any
        intro s1 h1
        exact hleft _ _ s1 (h1 ▸ (h.mem.writeDev _ _ _).setFile _ _) (by rw [h1]; rfl)

theorem wp_writeBlock {fid size : ℕ} {buf : Mem} {blocknr : ℤ} (hv : v.Fits s.iom.inodeNum)
    (hsize : size ≤ s.iom.clusterSize) :
    wp True (writeBlock fid buf size 0 v blocknr) (fun _ s' => s'.iom.HintKept n) e s := by
  unfold writeBlock
  rw [wp_bind, wp_env, wp_bind]
  apply wp_indeterminate_any
  intro w s1 h1
  rw [← h1] at h hv hsize
  rw [wp_bind]
  refine h.wp_writeLoop hv hsize (fun s2 h2 => ?_) (fun s2 v' w' h2 hv' => ?_)
  · rw [wp_pure]
    exact h2
  dsimp only
  rw [wp_bind]
  apply wp_writeInodeToItble h2.mounted hv'.ino
  intro s3 h3
  replace h : s3.iom.Hinted n := h3 ▸ h2.setInode hv' _
  rw [if_neg (by decide), wp_bind]
  apply wp_updateSb hio h.mounted
  intro s4 h4
  have h' : s4.iom.Hinted n := h4 ▸ h.writeDev _ _ _
  rw [wp_bind]
  apply wp_updateItble hio h'.mounted
  intro s5 h5
  have h'' : s5.iom.Hinted n := h5 ▸ h'.writeDev _ _ _
  rw [wp_bind]
  apply wp_updateDbmap hio h''.mounted
  intro s6 h6
  rw [wp_pure, h6, h5, h4]
  exact h.flushWrite

theorem wp_doWrite {fid size : ℕ} {buf : Mem} (hsize : size ≤ s.iom.clusterSize) :
    wp True (doWrite fid buf size 0) (fun _ s' => s'.iom.HintKept n) e s := by
  unfold doWrite
  rw [wp_bind, wp_getIom, wp_ite, wp_undefined]
  refine ⟨fun _ => trivial,fun _ => ?_⟩
  rw [wp_bind]
  apply wp_modifyIom_any
  intro s1 h1
  replace h : s1.iom.HintKept n := h1 ▸ ⟨h.mem.setFile _ _,h.dev⟩
  replace hsize : size ≤ s1.iom.clusterSize := by
    rw [h1]
    exact hsize
  rw [wp_bind]
  refine wp_doReadInode (fun s2 h2 _ => ?_) (fun _ _ => trivial) (fun s2 h2 _ hk => ?_)
  · rw [wp_pure, h2]
    exact h
  have hv := h.mem.records _ hk
  have hnum : s2.iom.inodeNum = s1.iom.inodeNum := by rw [h2]
  rw [← h2] at h hsize
  rw [← hnum] at hv
  dsimp only
  rw [wp_ite]
  refine ⟨fun _ => ?_,fun _ => h.wp_writeBlock hio hv hsize⟩
  rw [wp_bind]
  refine wp_allocBlockInbmap h.mem.mounted (fun s3 b h3 => ?_) (fun s3 b _ h3 _ _ _ => ?_)
  · dsimp only
    rw [if_pos rfl, wp_bind]
    exact wp_restoreDbmap_none trivial h3
  have hnum3 : s3.iom.inodeNum = s2.iom.inodeNum := by
    rw [h3]
    rfl
  have hcs3 : s3.iom.clusterSize = s2.iom.clusterSize := by
    rw [h3]
    rfl
  replace h : s3.iom.HintKept n := h3 ▸ ⟨h.mem.takeBlock b,h.dev⟩
  rw [← hnum3] at hv
  rw [← hcs3] at hsize
  dsimp only
  rw [if_neg (by decide)]
  exact h.wp_writeBlock hio ⟨hv.ino,fun j hj => (Function.update_of_ne hj _ _).trans (hv.tail j hj)⟩ hsize

end Iom.HintKept

/-! ## Runs -/

/-- A call on a mounted volume: a directory operation, a write from the start of a file through a handle in slot
`fid`, or a remount. -/
inductive VolumeCall
  | request (q : Request)
  | write (fid : ℕ) (ft : FileTable) (buf : Mem) (size : ℕ)
  | remount

namespace VolumeCall

def run : VolumeCall → M ℤ
  | request q => q.run
  | write fid ft buf size => do
    modifyIom (fun m => m.setFile fid ft)
    doWrite fid buf size 0
  | remount => do
    let ok ← mount
    return if ok then lab4Success else lab4Error

/-- Transfers succeed, a write fits the cluster, and a mount gets its buffers. -/
def Plain (e : Env) (s : Sys) : VolumeCall → ℤ → Prop
  | request _, _ => e.IoOk
  | write _ _ _ size, _ => e.IoOk ∧ size ≤ s.iom.clusterSize
  | remount, _ => e.Nominal

end VolumeCall

/-- Every call keeps both copies of the hint below the number of blocks. -/
theorem Iom.HintKept.wp_call {q : VolumeCall} {r : ℤ} (h : s.iom.HintKept n) (hq : q.Plain e s r) :
    wp True q.run (fun _ s' => s'.iom.HintKept n) e s := by
  cases q with
  | request q =>
    change wp True q.run _ e s
    cases q with
    | create D x mode => exact Request.wp_create.mpr (h.wp_lab4Createfile hq)
    | mkdir D x => exact Request.wp_mkdir.mpr (h.wp_doMkdir hq)
    | unlink D x => exact Request.wp_unlink.mpr (h.wp_doUnlink hq)
    | rmdir D x => exact Request.wp_rmdir.mpr (h.wp_doRmdir hq)
  | write fid ft buf size =>
    unfold VolumeCall.run
    rw [wp_bind]
    apply wp_modifyIom_any
    intro s1 h1
    have h' : s1.iom.HintKept n := h1 ▸ ⟨h.mem.setFile _ _,h.dev⟩
    exact h'.wp_doWrite hq.1 (h1 ▸ hq.2)
  | remount =>
    unfold VolumeCall.run
    rw [wp_bind]
    exact (h.wp_mount hq).mono (fun _ _ h' => (wp_pure _).mpr h')

theorem hintKept_of_reached {t : Sys} (h : s.iom.HintKept n) (hr : Reached VolumeCall.run VolumeCall.Plain s t) :
    t.iom.HintKept n :=
  hr.invariant (I := fun s => s.iom.HintKept n) h (fun _ _ _ _ _ h hq hrun => (h.wp_call hq).elim hrun)

/-- Block allocation is cyclic first fit exactly when a block is free and both counters can drop, and in every run
from a format its hint is below the number of blocks. -/
theorem block_allocation_first_fit_iff (e : Env) (s : Sys) :
    (s.iom.BlockScannable →
      (BlockAllocationFirstFit e s ↔ (∃ q < s.iom.maxBlock, s.iom.dbit q = false) ∧ s.iom.BlockRoom (-1))) ∧
    ∀ (s0 t : Sys) (ok : Bool), e.Nominal → IsSector s.iom.dev.blksszget → formatAndMount e s = some (ok,s0) →
      2 ≤ s0.iom.maxBlock → s0.iom.maxBlock ≤ 8 * s0.iom.clusterSize → Reached VolumeCall.run VolumeCall.Plain s0 t →
      t.iom.sbi.lastAllocatedBlknr < t.iom.maxBlock := by
  refine ⟨fun h => firstFit_iff h,fun s0 t ok he hsec hrun h2 _ hr => ?_⟩
  have h0 := (wp_formatAndMount_hinted (Q := fun _ s' => 2 ≤ s'.iom.maxBlock → s'.iom.HintKept s'.iom.maxBlock) he hsec
    (fun _ h => h))
  obtain ⟨_,_,hrun',h0⟩ := wp_false.mp h0
  cases hrun.symm.trans hrun'
  have ht := (hintKept_of_reached (h0 h2) hr).mem
  rw [ht.maxBlock]
  exact ht.hint

/-! ## A new volume of six blocks -/

/-- After a format, a directory that is made and a remount. -/
def makeAndRemount : M ℤ := do
  let _ ← (VolumeCall.request (.mkdir 2 [100])).run
  VolumeCall.remount.run

set_option maxRecDepth 100000 in
theorem makeAndRemount_run : ∃ s0 t, formatAndMount quietEnv (blankDisk 80) = some (true,s0) ∧ s0.iom.BlockRoom (-1) ∧
    Reached VolumeCall.run VolumeCall.Plain s0 t ∧ t.iom.dbit 1 = true := by
  have h : ((formatAndMount >>= fun _ => makeAndRemount) quietEnv (blankDisk 80)).map (fun p => (p.1,p.2.iom.dbit 1)) =
      some (lab4Success,true) := by decide +kernel
  have hroom : (formatAndMount quietEnv (blankDisk 80)).map (fun p => (p.1,decide (p.2.iom.BlockRoom (-1)))) =
      some (true,true) := by decide +kernel
  obtain ⟨s0,hrun,_⟩ := blankDisk_mounts
  rw [bind_apply, hrun] at h
  rw [hrun] at hroom
  obtain ⟨⟨r,t⟩,hmake,heq⟩ := Option.map_eq_some_iff.mp h
  simp only [Prod.mk.injEq] at heq
  simp only [Option.map_some, Option.some.injEq, Prod.mk.injEq, decide_eq_true_eq] at hroom
  have hmake' : makeAndRemount quietEnv s0 = some (r,t) := hmake
  obtain ⟨r1,s1,hmk,hrest⟩ := exists_of_bind hmake'
  have h1 : Reached VolumeCall.run VolumeCall.Plain s0 s1 :=
    Reached.refl.call (a := r1) (q := .request (.mkdir 2 [100])) quietEnv_nominal.io hmk
  exact ⟨s0,t,hrun,hroom.2,h1.call (a := r) (q := .remount) quietEnv_nominal hrest,heq.2⟩

theorem blankDisk_scannable {root : Inode} {a b : ℤ} (hs : s.iom = freshIom (blankDisk 80).iom.dev root quietEnv.heap a b)
    (hn : s.iom.maxBlock = 6) : s.iom.BlockScannable ∧ s.iom.dbit 1 = false := by
  have hsec : IsSector (blankDisk 80).iom.dev.blksszget := .inl rfl
  have hcs : s.iom.clusterSize = 4096 := by
    rw [hs, fresh_clusterSize hsec]
    rfl
  have hhint : s.iom.sbi.lastAllocatedBlknr = 1 := by
    rw [hs, fresh_sbi hsec]
    rfl
  refine ⟨⟨by rw [hs]; rfl,by omega,by omega,by omega⟩,?_⟩
  rw [hs, fresh_dbit (by rw [show (openDevice (blankDisk 80).iom.dev).clusterSize = 4096 by decide]; omega)]
  rfl

theorem block_allocation_first_fit_blank : ∃ s0 t, formatAndMount quietEnv (blankDisk 80) = some (true,s0) ∧
    BlockAllocationFirstFit quietEnv s0 ∧ Reached VolumeCall.run VolumeCall.Plain s0 t ∧ t.iom.dbit 1 = true ∧
    t.iom.sbi.lastAllocatedBlknr < t.iom.maxBlock := by
  obtain ⟨s0,t,hrun,hroom,hr,hbit⟩ := makeAndRemount_run
  obtain ⟨s1,root,a,b,hrun1,_,h0⟩ := blankDisk_fresh
  obtain ⟨s2,hrun2,hn⟩ := blankDisk_mounts
  cases hrun.symm.trans hrun1
  cases hrun.symm.trans hrun2
  obtain ⟨hscan,hfree⟩ := blankDisk_scannable h0 hn
  have h2 := hscan.two_le
  exact ⟨s0,t,hrun,((block_allocation_first_fit_iff quietEnv s0).1 hscan).mpr ⟨⟨1,by omega,hfree⟩,hroom⟩,hr,hbit,
    (block_allocation_first_fit_iff quietEnv _).2 s0 t true quietEnv_nominal (.inl rfl) hrun h2 hscan.fits hr⟩

/-- With every block in use the allocation fails and loses the bitmap. -/
theorem full_bitmap_lost : ∃ s0 s, formatAndMount quietEnv (blankDisk 80) = some (true,s0) ∧
    s.iom = s0.iom.setDbmap (fun _ => 255) ∧ s.iom.BlockScannable ∧
    (∃ b s', scanAllocateDbmap quietEnv s = some ((lab4Error,b),s') ∧ s'.iom.iomBufDbmap = none) ∧
    ¬BlockAllocationFirstFit quietEnv s := by
  obtain ⟨s0,root,a,b,hrun,_,h0⟩ := blankDisk_fresh
  obtain ⟨s1,hrun1,hn⟩ := blankDisk_mounts
  cases hrun.symm.trans hrun1
  obtain ⟨hscan,_⟩ := blankDisk_scannable h0 hn
  let s : Sys := ⟨s0.iom.setDbmap (fun _ => 255),0⟩
  have hfits : s.iom.BlockScannable := ⟨rfl,hscan.two_le,hscan.fits,hscan.hint⟩
  have hbits : ∀ i < 8, Nat.testBit 255 i = true := by decide
  have hfull : ∀ q < s.iom.maxBlock, s.iom.dbit q = true := fun q _ => hbits (q % 8) (Nat.mod_lt _ (by decide))
  exact ⟨s0,s,hrun,rfl,hfits,scanAllocateDbmap_full hfits hfull,not_firstFit_of_full hfits hfull⟩

end SimpleFS
