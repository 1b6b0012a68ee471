import SimpleFS.RenameEffects
import SimpleFS.Format

/-! # What format and mount leave

With transfers and allocations succeeding, a mount is a function of the device image, and a format
writes five clusters whose contents depend on the device only through its geometry.
-/
namespace SimpleFS
open Bytes Machine Prog

/-! ## Mount -/

/-- A cluster of the device read into an allocation. -/
def Device.cluster (d : Device) (heap : ℕ → Mem) (pos : ℕ) : Mem :=
  splice (heap pos) 0 (openDevice d).clusterSize (d.bytes.shift (pos * (openDevice d).clusterSize))

/-- The io manager of a mounted device; the two numbers are what the free counters happen to hold. -/
def mountIom (d : Device) (heap : ℕ → Mem) (freeInodes freeBlocks : ℤ) : Iom :=
  { openDevice d with
    sb := d.cluster heap 0
    iomBufIbmap := some (d.cluster heap 1)
    iomBufDbmap := some (d.cluster heap 2)
    iomBufItble := d.cluster heap 3
    sbi := SbInfo.ofSuperBlock (superBlockCodec.get (d.cluster heap 0) 0) freeInodes freeBlocks }

/-- The super block a mount reads. -/
def Device.superBlock (d : Device) (heap : ℕ → Mem) : SuperBlock := superBlockCodec.get (d.cluster heap 0) 0

variable {u : Prop} {e : Env} {s : Sys}

theorem wp_malloc_ok {Q : Bool → Sys → Prop} (hmal : e.MallocOk) (h : ∀ s', s'.iom = s.iom → Q true s') :
    wp u malloc Q e s := by
  apply wp_malloc_cases
  intro b s1 h1 hb
  cases b with
  | false => exact absurd hmal (hb rfl)
  | true => exact h s1 h1

theorem wp_readCluster {pos : ℕ} {Q : Option Mem → Sys → Prop} (hio : e.IoOk) (hmal : e.MallocOk)
    (h : ∀ s', s'.iom = s.iom →
      Q (some (splice (e.heap pos) 0 s.iom.clusterSize (s.iom.dev.bytes.shift (pos * s.iom.clusterSize)))) s') :
    wp u (readCluster pos) Q e s := by
  unfold readCluster
  rw [wp_bind, wp_getIom, wp_bind, wp_env, wp_bind]
  apply wp_malloc_ok hmal
  intro s1 h1
  rw [if_neg (by decide), wp_bind]
  apply wp_pread_ok hio (Int.natCast_nonneg _) le_rfl
  intro s2 h2
  rw [wp_pure, h1, Int.toNat_natCast]
  exact h s2 (h2.trans h1)

/-- A mount reads four clusters and fills the super block information, or refuses the device. -/
theorem wp_mount {Q : Bool → Sys → Prop} (hio : e.IoOk) (hmal : e.MallocOk)
    (hcs : IsCluster (openDevice s.iom.dev).clusterSize)
    (hok : ∀ s' a b, (s.iom.dev.superBlock e.heap).sbSignature = lab4SbSignature →
      s'.iom = mountIom s.iom.dev e.heap a b → Q true s')
    (hbad : ∀ s', (s.iom.dev.superBlock e.heap).sbSignature ≠ lab4SbSignature → Q false s') :
    wp u mount Q e s := by
  have hne : toS32 (openDevice s.iom.dev).clusterSize ≠ lab4Error := by
    rcases hcs with h | h | h | h <;> rw [h] <;> decide
  unfold mount checkFormated
  simp only [wp_bind]
  apply wp_modifyIom_any
  intro s1 h1
  apply wp_malloc_ok hmal
  intro s2 h2
  rw [h1] at h2
  rw [if_neg (by decide), wp_bind, wp_getIom, wp_bind, wp_env, wp_bind, h2]
  apply wp_pread_ok hio le_rfl le_rfl
  intro s3 h3
  rw [h2] at h3
  rw [h2]
  have hcluster : splice (e.heap 0) 0 (openDevice s.iom.dev).clusterSize
      ((openDevice s.iom.dev).dev.bytes.shift (0 : ℤ).toNat) = s.iom.dev.cluster e.heap 0 := by
    unfold Device.cluster
    rw [Nat.zero_mul]
    rfl
  dsimp only
  rw [if_neg hne, wp_bind, hcluster]
  apply wp_modifyIom_any
  intro s4 h4
  rw [h3] at h4
  rw [wp_bind, wp_getIom, wp_ite, h4]
  refine ⟨fun hsig => ?_,fun hsig => ?_⟩
  · rw [wp_bind]
    apply wp_readCluster hio hmal
    intro s5 h5
    rw [wp_bind]
    apply wp_modifyIom_any
    intro s6 h6
    rw [h5, h4] at h6
    rw [wp_bind]
    apply wp_readCluster hio hmal
    intro s7 h7
    rw [wp_bind]
    apply wp_modifyIom_any
    intro s8 h8
    rw [h7, h6] at h8
    rw [wp_bind]
    apply wp_readCluster hio hmal
    intro s9 h9
    dsimp only
    rw [wp_bind]
    apply wp_modifyIom_any
    intro s10 h10
    rw [h9, h8] at h10
    rw [wp_pure, if_neg (by decide)]
    unfold lab4FillSuper
    simp only [wp_bind]
    apply wp_malloc_ok hmal
    intro s11 h11
    rw [if_neg (by decide), wp_bind, wp_getIom, wp_bind]
    apply wp_indeterminate_any
    intro a s12 h12
    rw [wp_bind]
    apply wp_indeterminate_any
    intro b s13 h13
    rw [wp_bind]
    apply wp_malloc_ok hmal
    intro s14 h14
    rw [if_neg (by decide), wp_bind]
    apply wp_modifyIom_any
    intro s15 h15
    rw [h14, h13, h12, h11, h10] at h15
    rw [wp_pure, wp_pure]
    exact hok s15 a b hsig h15
  · simp only [wp_pure, Bool.not_false, ↓reduceIte]
    exact hbad s4 hsig

/-! ## Format -/

/-- The super block of a new file system: three inodes are taken, no block is counted as used. -/
def newSuperBlock (d : Device) : SuperBlock :=
  { (reserveInodes (List.range lab4NumResvIno) (zeros,formatSb (openDevice d))).2 with sbUmount := 1 }

def newIbmap : Mem := (reserveInodes (List.range lab4NumResvIno) (zeros,SuperBlock.zero)).1
def newDbmap : Mem := (lab4SetBit 0 zeros).2

/-- The five clusters of a new file system with the given root record. -/
def formatImage (d : Device) (root : Inode) : Mem :=
  let cs := (openDevice d).clusterSize
  splice (splice (splice (splice (splice d.bytes 0 cs (superBlockCodec.put zeros 0 (newSuperBlock d))) (1 * cs) cs newIbmap)
    (2 * cs) cs newDbmap) (3 * cs) cs (rootTable root)) (4 * cs) cs
    (newDirArea (UInt32.ofNat lab4RootIno) (UInt32.ofNat lab4RootIno))

def formattedDevice (d : Device) (root : Inode) : Device := { d with bytes := formatImage d root }

theorem wp_mallocs {n : ℕ} {Q : Unit → Sys → Prop} (hmal : e.MallocOk) (h : ∀ s', s'.iom = s.iom → Q () s') :
    wp u (mallocs n) Q e s := by
  induction n generalizing s with
  | zero =>
    rw [mallocs, wp_pure]
    exact h s rfl
  | succ n ih =>
    rw [mallocs, wp_bind]
    apply wp_malloc_ok hmal
    intro s1 h1
    rw [if_neg (by decide)]
    exact ih (fun s2 h2 => h s2 (h2.trans h1))

/-- The root record; only its owner and its times are not fixed. -/
theorem rootInode_record (d : Device) (uid gid : UInt16) (t1 t2 t3 : UInt32) :
    DirRecord lab4RootIno (4 * (openDevice d).clusterSize)
      (rootInode (newSuperBlock d) (openDevice d).clusterSize uid gid t1 t2 t3) :=
  ⟨rfl,rfl,Int64.ofNat_slots,rfl,rfl,fun _ hj => if_neg hj⟩

theorem wp_mkfs {Q : ℤ → Sys → Prop} (hio : e.IoOk) (hmal : e.MallocOk)
    (h : ∀ s' root, DirRecord lab4RootIno (4 * (openDevice s.iom.dev).clusterSize) root →
      s'.iom.dev = formattedDevice s.iom.dev root → Q lab4Success s') : wp u mkfs Q e s := by
  unfold mkfs
  rw [wp_bind]
  apply wp_modifyIom_any
  intro s1 h1
  unfold formatDeviceToLab
  rw [wp_bind]
  apply wp_mallocs hmal
  intro s2 h2
  rw [h1] at h2
  rw [wp_bind, wp_getIom, h2]
  unfold lab4AllocRootInodeDirect
  simp only [wp_bind, wp_getgid, wp_getuid]
  apply wp_timeNull_any
  intro t1 s3 h3
  apply wp_timeNull_any
  intro t2 s4 h4
  apply wp_timeNull_any
  intro t3 s5 h5
  rw [wp_pure, wp_setIom]
  dsimp only
  apply wp_pwrite_ok hio le_rfl
  intro s6 h6
  apply wp_pwrite_ok hio (Int.natCast_nonneg _)
  intro s7 h7
  rw [h6] at h7
  apply wp_pwrite_ok hio (Int.natCast_nonneg _)
  intro s8 h8
  rw [h7] at h8
  apply wp_pwrite_ok hio (Int.natCast_nonneg _)
  intro s9 h9
  rw [h8] at h9
  apply wp_pwrite_ok hio (Int.natCast_nonneg _)
  intro s10 h10
  rw [h9] at h10
  rw [wp_pure]
  refine h s10 _ (rootInode_record s.iom.dev e.uid e.gid t1 t2 t3) ?_
  rw [h10]
  rfl

end SimpleFS
