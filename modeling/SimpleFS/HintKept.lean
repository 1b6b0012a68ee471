import SimpleFS.Fixed
import SimpleFS.Fresh
import SimpleFS.Zeroing

/-! # The two copies of the block hint

The allocator reads the hint that the last mount left in `struct lab4_sb_info`; `do_mkdir` moves the one in
the super block, which the next mount reads. Here is what an operation has to leave, in memory and on the
device, for both to stay below the number of blocks, whatever the tree and the bitmaps have become.
-/
namespace SimpleFS
open Bytes Machine Prog

/-- Super block information of a volume with clusters of `c` bytes and `n` blocks, and a hint among them. -/
structure SbInfo.Laid (i : SbInfo) (c n : ℕ) : Prop where
  clusterSize : i.clusterSize = c
  sbStart : i.sbStart = 0
  ibitmapStart : i.ibitmapStart = c
  ibitmapSize : i.ibitmapSize = c
  dbitmapStart : i.dbitmapStart = 2 * c
  itableStart : i.itableStart = 3 * c
  dareaStart : i.dareaStart = 4 * c
  rootIno : i.rootIno = 2
  maxBlock : i.dareaSize / i.clusterSize = n
  hint : i.lastAllocatedBlknr < n

/-- A mount accepts the super block and fills in such information. -/
structure SuperBlock.Lays (v : SuperBlock) (c n : ℕ) : Prop where
  signature : v.sbSignature = lab4SbSignature
  dareaStart : v.sbDareaStart = 4
  info : ∀ a b, (SbInfo.ofSuperBlock v a b).Laid c n

/-- The record carries a number of the table and at most its first pointer. -/
structure Inode.Fits (v : Inode) (n : ℕ) : Prop where
  ino : v.iIno.toNat < n
  tail : ∀ j, j ≠ 0 → v.iBlocks j = 0

structure Iom.Hinted (m : Iom) (n : ℕ) : Prop where
  mounted : m.Mounted
  opened : (openDevice m.dev).clusterSize = m.clusterSize
  maxBlock : m.maxBlock = n
  hint : m.sbi.lastAllocatedBlknr < n
  sb : m.superBlock.Lays m.clusterSize n
  records : ∀ k < m.inodeNum, (m.inode k).Fits m.inodeNum

structure Device.Hinted (d : Device) (c n : ℕ) : Prop where
  sb : (superBlockCodec.get d.bytes 0).Lays c n
  records : ∀ k < c / lab4InodeEntrySize, (inodeCodec.get d.bytes (3 * c + k * lab4InodeEntrySize)).Fits (c / lab4InodeEntrySize)

/-- In memory and on the device. -/
structure Iom.HintKept (m : Iom) (n : ℕ) : Prop where
  mem : m.Hinted n
  dev : m.dev.Hinted m.clusterSize n

variable {m m' : Iom} {n c k b : ℕ} {v : SuperBlock} {w : Inode}

namespace SuperBlock.Lays
variable (h : v.Lays c n)
include h

theorem freeInodes (x : Int32) : ({ v with sbFreeInodes := x } : SuperBlock).Lays c n := ⟨h.1,h.2,h.3⟩
theorem freeBlocks (x : Int64) : ({ v with sbFreeBlocks := x } : SuperBlock).Lays c n := ⟨h.1,h.2,h.3⟩

theorem inoHint (x : UInt32) : ({ v with sbLastAllocatedIno := x } : SuperBlock).Lays c n :=
  ⟨h.1,h.2,fun a b => have i := h.3 a b; ⟨i.1,i.2,i.3,i.4,i.5,i.6,i.7,i.8,i.9,i.10⟩⟩

theorem blknr {x : UInt32} (hx : x.toNat < n) : ({ v with sbLastAllocatedBlknr := x } : SuperBlock).Lays c n :=
  ⟨h.1,h.2,fun a b => have i := h.3 a b; ⟨i.1,i.2,i.3,i.4,i.5,i.6,i.7,i.8,i.9,hx⟩⟩

end SuperBlock.Lays

theorem Inode.fits_zero (hn : 0 < n) : Inode.zero.Fits n := ⟨hn,fun _ _ => rfl⟩

/-! ## In memory -/

namespace Iom.Hinted
variable (h : m.Hinted n)
include h

theorem of_fixed (hm : m'.Mounted) (hf : m'.fixed = m.fixed) (hd : m'.dev.blksszget = m.dev.blksszget)
    (hsb : m'.superBlock.Lays m.clusterSize n) (hr : ∀ k < m.inodeNum, (m'.inode k).Fits m.inodeNum) : m'.Hinted n := by
  have hcs := fixed_cluster hf
  have hopen : (openDevice m'.dev).clusterSize = (openDevice m.dev).clusterSize := by
    unfold openDevice
    dsimp only
    rw [hd]
  have hnum : m'.inodeNum = m.inodeNum := by rw [Iom.inodeNum, hcs]; rfl
  refine ⟨hm,?_,(fixed_maxBlock hf).trans h.maxBlock,?_,?_,?_⟩
  · rw [hopen, hcs, h.opened]
  · rw [fixed_hint hf]
    exact h.hint
  · rw [hcs]
    exact hsb
  · rw [hnum]
    exact hr

theorem inodeNum_pos : 0 < m.inodeNum := by
  have := h.mounted.inodeNum_le
  omega

theorem setIbmap (x : Mem) : (m.setIbmap x).Hinted n := h.of_fixed h.mounted.setIbmap rfl rfl h.sb h.records
theorem setDbmap (x : Mem) : (m.setDbmap x).Hinted n := h.of_fixed h.mounted.setDbmap rfl rfl h.sb h.records
theorem setFile (fid : ℕ) (ft : FileTable) : (m.setFile fid ft).Hinted n :=
  h.of_fixed h.mounted.setFile rfl rfl h.sb h.records

theorem onDev (hd : m.OnDev m') : m'.Hinted n := by
  have hm := hd.mounted h.mounted
  obtain ⟨x,rfl⟩ := hd
  exact h.of_fixed hm rfl rfl h.sb h.records

theorem writeDev (a l : ℕ) (x : Mem) : (m.writeDev a l x).Hinted n := h.onDev (.writeDev _ _ _ _)

theorem addFreeInodes (x : ℤ) : (m.addFreeInodes x).Hinted n := by
  refine h.of_fixed h.mounted.addFreeInodes rfl rfl ?_ h.records
  rw [Iom.addFreeInodes, Iom.superBlock_setSuperBlock]
  exact h.sb.freeInodes _

theorem addFreeBlocks (x : ℤ) : (m.addFreeBlocks x).Hinted n := by
  refine h.of_fixed h.mounted.addFreeBlocks rfl rfl ?_ h.records
  rw [Iom.addFreeBlocks, Iom.superBlock_setSuperBlock]
  exact h.sb.freeBlocks _

theorem setInoHint (x : ℕ) : (m.setInoHint x).Hinted n := by
  refine h.of_fixed h.mounted.setInoHint rfl rfl ?_ h.records
  have hsb : (m.setInoHint x).superBlock = { m.superBlock with sbLastAllocatedIno := UInt32.ofNat x } :=
    superBlockCodec.get_put_self
  rw [hsb]
  exact h.sb.inoHint _

/-- The only change of a hint: to a block of the volume. -/
theorem setBlknr (hb : b < n) : (m.setBlknr b).Hinted n := by
  refine h.of_fixed h.mounted.setBlknr rfl rfl ?_ h.records
  rw [Iom.setBlknr, Iom.superBlock_setSuperBlock]
  refine h.sb.blknr (lt_of_le_of_lt ?_ hb)
  rw [UInt32.toNat_ofNat']
  exact Nat.mod_le _ _

theorem setInode (hw : w.Fits m.inodeNum) (k : ℕ) : (m.setInode k w).Hinted n := by
  refine h.of_fixed h.mounted.setInode rfl rfl h.sb (fun j hj => ?_)
  rw [inode_setInode]
  by_cases hjk : j = k
  · rw [hjk, Function.update_self]
    exact hw
  · rw [Function.update_of_ne hjk]
    exact h.records j hj

theorem takeInode (k : ℕ) : (m.takeInode k).Hinted n := ((h.setIbmap _).setInoHint _).addFreeInodes _
theorem takeBlock (b : ℕ) : (m.takeBlock b).Hinted n := (h.setDbmap _).addFreeBlocks _
theorem freeBlock (b : ℕ) : (m.freeBlock b).Hinted n := (h.setDbmap _).addFreeBlocks _

theorem freeInode (k : ℕ) : (m.freeInode k).Hinted n :=
  ((h.setIbmap _).setInode (Inode.fits_zero h.inodeNum_pos) k).addFreeInodes _

theorem addLink (f : UInt32 → UInt32) (hk : k < m.inodeNum) : (m.addLink f k).Hinted n :=
  h.setInode (w := { m.inode k with iLinksCount := f (m.inode k).iLinksCount }) ⟨(h.records k hk).1,(h.records k hk).2⟩ k

theorem reloadItble (hd : m.dev.Hinted m.clusterSize n) :
    ({ m with iomBufItble := splice m.iomBufItble 0 m.clusterSize (m.dev.bytes.shift (3 * m.clusterSize)) } : Iom).Hinted n := by
  refine h.of_fixed ⟨h.mounted.1,h.mounted.2,h.mounted.3,h.mounted.4,h.mounted.5,h.mounted.6,h.mounted.7,h.mounted.8,
    h.mounted.9,h.mounted.10,h.mounted.11,h.mounted.12⟩ rfl rfl h.sb (fun k hk => ?_)
  have hmul := h.mounted.inodeNum_mul
  have hle := Nat.mul_le_mul_right lab4InodeEntrySize (Nat.succ_le_of_lt hk)
  rw [Nat.succ_mul] at hle
  have hrec : inodeCodec.get (splice m.iomBufItble 0 m.clusterSize (m.dev.bytes.shift (3 * m.clusterSize)))
      (k * lab4InodeEntrySize) = inodeCodec.get m.dev.bytes (3 * m.clusterSize + k * lab4InodeEntrySize) := by
    rw [inodeCodec.get_splice_inside (Nat.zero_le _) (by rw [inodeCodec_size]; unfold lab4InodeEntrySize at *; omega),
      Nat.sub_zero, inodeCodec.get_shift]
  change Inode.Fits (inodeCodec.get (splice m.iomBufItble 0 m.clusterSize (m.dev.bytes.shift (3 * m.clusterSize)))
    (k * lab4InodeEntrySize)) m.inodeNum
  rw [hrec]
  exact hd.records k hk

end Iom.Hinted

/-! ## On the device -/

/-- A device whose first and fourth cluster hold the buffers of the super block and of the table. -/
theorem Iom.Hinted.hintKept (h : m.Hinted n) (hsb : ∀ j < m.clusterSize, m.dev.bytes j = m.sb j)
    (htable : ∀ j < m.clusterSize, m.dev.bytes (3 * m.clusterSize + j) = m.iomBufItble j) : m.HintKept n := by
  have hcs := h.mounted.cluster_le
  have hmul := h.mounted.inodeNum_mul
  refine ⟨h,?_,fun k hk => ?_⟩
  · have hget : superBlockCodec.get m.dev.bytes 0 = m.superBlock := by
      refine superBlockCodec.get_congr (fun i _ hi => hsb i ?_)
      rw [superBlockCodec_size] at hi
      omega
    rw [hget]
    exact h.sb
  · have hle := Nat.mul_le_mul_right lab4InodeEntrySize (Nat.succ_le_of_lt (show k < m.inodeNum from hk))
    rw [Nat.succ_mul] at hle
    have hget : inodeCodec.get m.dev.bytes (3 * m.clusterSize + k * lab4InodeEntrySize) = m.inode k := by
      rw [← inodeCodec.get_shift]
      refine inodeCodec.get_congr (fun i _ hi => ?_)
      rw [inodeCodec_size] at hi
      rw [Mem.shift_apply]
      exact htable i (by unfold lab4InodeEntrySize at *; omega)
    rw [hget]
    exact h.records k hk

namespace Iom.Hinted
variable (h : m.Hinted n)
include h

/-- The flush of every operation but two. -/
theorem flushAll : m.flushAll.HintKept n := by
  have hdev : m.OnDev m.flushAll :=
    (OnDev.writeDev _ _ _ _).trans ((OnDev.writeDev _ _ _ _).trans ((OnDev.writeDev _ _ _ _).trans (.writeDev _ _ _ _)))
  refine (h.onDev hdev).hintKept (fun j hj => ?_) (fun j hj => h.mounted.flushed_itble hj)
  have hsb := h.mounted.flushed_sb hj
  rw [Nat.zero_mul, Nat.zero_add] at hsb
  exact hsb

/-- The flush of `lab4_createfile`, which leaves the data bitmap out. -/
theorem flushCreate : m.flushSb.flushIbmap.flushItble.HintKept n := by
  have hdev : m.OnDev m.flushSb.flushIbmap.flushItble :=
    (OnDev.writeDev _ _ _ _).trans ((OnDev.writeDev _ _ _ _).trans (.writeDev _ _ _ _))
  have hbytes : m.flushSb.flushIbmap.flushItble.dev.bytes = splice (splice (splice m.dev.bytes m.sbi.sbStart m.sbi.clusterSize
      m.sb) m.sbi.ibitmapStart m.sbi.clusterSize m.ibmap) m.sbi.itableStart m.sbi.clusterSize m.iomBufItble := rfl
  rw [h.mounted.sbiCluster, h.mounted.sbStart, h.mounted.ibitmapStart, h.mounted.itableStart] at hbytes
  refine (h.onDev hdev).hintKept (fun j (hj : j < m.clusterSize) => ?_) (fun j (hj : j < m.clusterSize) => ?_)
  · have hsb := splice_shift (m := m.dev.bytes) (a := 0) (d := m.sb) hj
    rw [Nat.zero_add] at hsb
    rw [hbytes, splice_outside (by omega), splice_outside (by omega), hsb]
    rfl
  · rw [hbytes]
    exact splice_shift hj

/-- The flush of `do_write`, which leaves the inode bitmap out. -/
theorem flushWrite : m.flushSb.flushItble.flushDbmap.HintKept n := by
  have hdev : m.OnDev m.flushSb.flushItble.flushDbmap :=
    (OnDev.writeDev _ _ _ _).trans ((OnDev.writeDev _ _ _ _).trans (.writeDev _ _ _ _))
  have hbytes : m.flushSb.flushItble.flushDbmap.dev.bytes = splice (splice (splice m.dev.bytes m.sbi.sbStart m.sbi.clusterSize
      m.sb) m.sbi.itableStart m.sbi.clusterSize m.iomBufItble) m.sbi.dbitmapStart m.sbi.clusterSize m.dbmap := rfl
  rw [h.mounted.sbiCluster, h.mounted.sbStart, h.mounted.dbitmapStart, h.mounted.itableStart] at hbytes
  refine (h.onDev hdev).hintKept (fun j (hj : j < m.clusterSize) => ?_) (fun j (hj : j < m.clusterSize) => ?_)
  · have hsb := splice_shift (m := m.dev.bytes) (a := 0) (d := m.sb) hj
    rw [Nat.zero_add] at hsb
    rw [hbytes, splice_outside (by omega), splice_outside (by omega), hsb]
    rfl
  · have htable := splice_shift (m := splice m.dev.bytes 0 m.clusterSize m.sb) (a := 3 * m.clusterSize) (d := m.iomBufItble) hj
    have hout : 2 * m.clusterSize + m.clusterSize ≤ 3 * m.clusterSize + j := by omega
    rw [hbytes]
    exact (splice_outside (.inr hout)).trans htable

end Iom.Hinted

/-! ## Mount and format -/

section Mount
variable {d : Device} {root : Inode} {heap : ℕ → Mem} {x y : ℤ}

theorem Device.cluster_apply {pos j : ℕ} (hj : j < (openDevice d).clusterSize) :
    d.cluster heap pos j = d.bytes (pos * (openDevice d).clusterSize + j) := by
  unfold Device.cluster
  rw [splice_inside (Nat.zero_le j) (by omega), Mem.shift_apply, Nat.sub_zero]

/-- A mount takes both copies from the device. -/
theorem Device.Hinted.mount (h : d.Hinted c n) (hc : IsCluster c) (hopen : (openDevice d).clusterSize = c) :
    (mountIom d heap x y).HintKept n := by
  have hle : 4096 ≤ c := by rcases hc with h | h | h | h <;> omega
  have hsb : (mountIom d heap x y).superBlock = superBlockCodec.get d.bytes 0 := by
    refine superBlockCodec.get_congr (fun i _ hi => ?_)
    rw [superBlockCodec_size] at hi
    have hi' : i < (openDevice d).clusterSize := by omega
    have happ : d.cluster heap 0 i = d.bytes (0 * (openDevice d).clusterSize + i) := Device.cluster_apply hi'
    rw [Nat.zero_mul, Nat.zero_add] at happ
    exact happ
  have hsbi : (mountIom d heap x y).sbi = SbInfo.ofSuperBlock (superBlockCodec.get d.bytes 0) x y := by
    rw [← hsb]
    rfl
  have hinfo : (mountIom d heap x y).sbi.Laid c n := by
    rw [hsbi]
    exact h.sb.info x y
  have hcs : (mountIom d heap x y).clusterSize = c := hopen
  have hmounted : (mountIom d heap x y).Mounted := by
    refine ⟨hcs ▸ hc,?_,hinfo.sbStart,?_,?_,?_,?_,?_,?_,hinfo.rootIno,rfl,rfl⟩
    · rw [hcs, hinfo.clusterSize]
    · rw [hcs, hinfo.ibitmapStart]
    · rw [hcs, hinfo.ibitmapSize]
    · rw [hcs, hinfo.dbitmapStart]
    · rw [hcs, hinfo.itableStart]
    · rw [hcs, hinfo.dareaStart]
    · rw [hsb]
      exact h.sb.dareaStart
  have hnum : (mountIom d heap x y).inodeNum = c / lab4InodeEntrySize := by rw [Iom.inodeNum, hcs]
  refine ⟨⟨hmounted,rfl,hinfo.maxBlock,hinfo.hint,?_,fun k hk => ?_⟩,?_⟩
  · rw [hcs, hsb]
    exact h.sb
  · rw [hnum] at hk ⊢
    have hmul := hmounted.inodeNum_mul
    rw [hnum, hcs] at hmul
    have hlek := Nat.mul_le_mul_right lab4InodeEntrySize (Nat.succ_le_of_lt hk)
    rw [Nat.succ_mul] at hlek
    have hget : (mountIom d heap x y).inode k = inodeCodec.get d.bytes (3 * c + k * lab4InodeEntrySize) := by
      rw [← inodeCodec.get_shift, ← hopen]
      refine inodeCodec.get_congr (fun i _ hi => ?_)
      rw [inodeCodec_size] at hi
      exact Device.cluster_apply (by unfold lab4InodeEntrySize at *; omega)
    rw [hget]
    exact h.records k hk
  · rw [hcs]
    exact h

/-- The records of a new table. -/
theorem rootTable_fits (hn : 2 < n) (hroot : DirRecord lab4RootIno b root) (k : ℕ) :
    (inodeCodec.get (rootTable root) (k * lab4InodeEntrySize)).Fits n := by
  have hsz : inodeCodec.size = 128 := rfl
  rcases (show k = 0 ∨ k = 1 ∨ k = 2 ∨ 3 ≤ k by omega) with rfl | rfl | rfl | hk
  · unfold rootTable
    rw [inodeCodec.get_put_of_disjoint (by rw [hsz]; unfold lab4RootIno lab4InodeEntrySize; omega),
      inodeCodec.get_put_of_disjoint (by rw [hsz]; unfold lab4InodeEntrySize; omega), Nat.zero_mul, inodeCodec.get_put_self]
    exact ⟨show 0 < n by omega,fun _ _ => rfl⟩
  · unfold rootTable
    rw [inodeCodec.get_put_of_disjoint (by rw [hsz]; unfold lab4RootIno lab4InodeEntrySize; omega), Nat.one_mul,
      inodeCodec.get_put_self]
    exact ⟨show 1 < n by omega,fun _ _ => rfl⟩
  · rw [show inodeCodec.get (rootTable root) (2 * lab4InodeEntrySize) = root from rootTable_root]
    refine ⟨?_,hroot.blocks⟩
    rw [hroot.ino]
    exact hn
  · rw [rootTable_behind hk]
    exact Inode.fits_zero (by omega)

/-- What the free counters happen to hold does not matter. -/
theorem fresh_maxBlock (hsec : IsSector d.blksszget) (x' y' : ℤ) :
    (freshIom d root heap x y).maxBlock = (freshIom d root heap x' y').maxBlock := by
  rw [Iom.maxBlock, Iom.maxBlock, fresh_sbi hsec, fresh_sbi hsec]
  simp only [SbInfo.ofSuperBlock]

/-- A new file system keeps the hint when the number of its blocks is at least two. -/
theorem formatted_hinted (hsec : IsSector d.blksszget) (hroot : DirRecord lab4RootIno (4 * (openDevice d).clusterSize) root)
    (hn : ∀ a b, (freshIom d root heap a b).maxBlock = n) (h2 : 2 ≤ n) :
    (formattedDevice d root).Hinted (openDevice d).clusterSize n := by
  have hcs := fresh_cluster_le hsec
  have hnum : 2 < (openDevice d).clusterSize / lab4InodeEntrySize := by
    unfold lab4InodeEntrySize
    omega
  have hsb : superBlockCodec.get (formattedDevice d root).bytes 0 = newSuperBlock d := by
    have hput : superBlockCodec.get (superBlockCodec.put zeros 0 (newSuperBlock d)) 0 = newSuperBlock d :=
      superBlockCodec.get_put_self
    rw [← hput]
    refine superBlockCodec.get_congr (fun i _ hi => ?_)
    rw [superBlockCodec_size] at hi
    have hi' : i < (openDevice d).clusterSize := by omega
    have happ : formatImage d root (0 * (openDevice d).clusterSize + i) = formatCluster d root 0 i :=
      formatImage_cluster (Nat.zero_le 4) hi'
    rw [Nat.zero_mul, Nat.zero_add] at happ
    exact happ
  refine ⟨?_,fun k hk => ?_⟩
  · rw [hsb]
    refine ⟨rfl,rfl,fun a b => ?_⟩
    have hm : (freshIom d root heap a b).Mounted := fresh_mounted hsec
    have hmax := hn a b
    rw [Iom.maxBlock] at hmax
    have hsbi : (freshIom d root heap a b).sbi = SbInfo.ofSuperBlock (newSuperBlock d) a b := fresh_sbi hsec
    rw [← hsbi]
    refine ⟨hm.sbiCluster,hm.sbStart,hm.ibitmapStart,hm.ibitmapSize,hm.dbitmapStart,hm.itableStart,hm.dareaStart,
      hm.rootIno,hmax,?_⟩
    rw [hsbi]
    exact h2
  · have hlek := Nat.mul_le_mul_right lab4InodeEntrySize (Nat.succ_le_of_lt hk)
    rw [Nat.succ_mul] at hlek
    have hmul : (openDevice d).clusterSize / lab4InodeEntrySize * lab4InodeEntrySize ≤ (openDevice d).clusterSize :=
      Nat.div_mul_le_self _ _
    have hget : inodeCodec.get (formattedDevice d root).bytes (3 * (openDevice d).clusterSize + k * lab4InodeEntrySize) =
        inodeCodec.get (rootTable root) (k * lab4InodeEntrySize) := by
      rw [← inodeCodec.get_shift]
      refine inodeCodec.get_congr (fun i _ hi => ?_)
      rw [inodeCodec_size] at hi
      exact formatImage_cluster (show 3 ≤ 4 by omega) (by unfold lab4InodeEntrySize at *; omega)
    rw [hget]
    exact rootTable_fits hnum hroot k

end Mount

section Rules
variable {e : Env} {s : Sys}

theorem Iom.HintKept.wp_mount (h : s.iom.HintKept n) (he : e.Nominal) :
    wp True mount (fun _ s' => s'.iom.HintKept n) e s := by
  have hc : IsCluster (openDevice s.iom.dev).clusterSize := h.mem.opened ▸ h.mem.mounted.cluster
  refine SimpleFS.wp_mount he.io he.malloc hc (fun s1 a b _ h1 => ?_) (fun s1 hsig => ?_)
  · rw [h1]
    exact h.dev.mount h.mem.mounted.cluster h.mem.opened
  · have hkept : (mountIom s.iom.dev e.heap 0 0).HintKept n := h.dev.mount h.mem.mounted.cluster h.mem.opened
    exact absurd hkept.mem.sb.signature hsig

/-- Every volume that a format leaves, if it has two blocks. -/
theorem wp_formatAndMount_hinted {Q : Bool → Sys → Prop} (he : e.Nominal) (hsec : IsSector s.iom.dev.blksszget)
    (h : ∀ s', (2 ≤ s'.iom.maxBlock → s'.iom.HintKept s'.iom.maxBlock) → Q true s') : wp False formatAndMount Q e s := by
  refine wp_formatAndMount he hsec (fun s1 root a b hroot h1 => h s1 (fun h2 => ?_))
  rw [h1] at h2 ⊢
  have hn : ∀ a' b', (freshIom s.iom.dev root e.heap a' b').maxBlock = (freshIom s.iom.dev root e.heap a b).maxBlock :=
    fun _ _ => fresh_maxBlock hsec a b
  exact (formatted_hinted hsec hroot hn h2).mount hsec.cluster rfl

end Rules

end SimpleFS
