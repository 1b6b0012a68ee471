import SimpleFS.Inode
import Mathlib.Tactic.Linarith

/-! # The mounted io manager and the effects of its calls

`Mounted` is what a successful mount fixes once and for all: the cluster size and the five areas of
the device. Every change an operation makes is one of a handful of updates of the io manager; each of
them is named here, with what it leaves alone.
-/
namespace SimpleFS
open Bytes Machine Prog

/-! ## Integer conversions in range -/

theorem toS32_of_mem {x : ℤ} (h : -2^31 ≤ x) (h' : x < 2^31) : toS32 x = x := by
  rw [toS32, BitVec.toInt_ofInt, Int.bmod_def]
  omega

theorem toU32_of_mem {x : ℤ} (h : 0 ≤ x) (h' : x < 2^32) : toU32 x = x.toNat := by
  rw [toU32, BitVec.toNat_ofInt, Int.emod_eq_of_lt h (by exact_mod_cast h')]

theorem toU32_natCast {x : ℕ} (h : x < 2^32) : toU32 x = x := by
  rw [toU32_of_mem (Int.natCast_nonneg x) (by exact_mod_cast h), Int.toNat_natCast]

theorem toS32_neg {n : ℕ} (h : 2^31 ≤ n) (h' : n < 2^32) : toS32 n < 0 := by
  unfold toS32
  rw [BitVec.toInt_ofInt, Int.bmod_def]
  omega

theorem toS32_natCast {x : ℕ} (h : x < 2^31) : toS32 x = x :=
  toS32_of_mem (by omega) (by exact_mod_cast h)

/-- A transfer size in the range of `int` is not taken for an error. -/
theorem toS32_ne_error {x : ℕ} (h : x < 2^31) : toS32 x ≠ lab4Error := by
  rw [toS32_natCast h, lab4Error]
  omega

theorem addSigned_eq_some {bits : ℕ} {x d y : ℤ} (h : addSigned bits x d = some y) :
    y = x + d ∧ -2^(bits-1) ≤ y ∧ y < 2^(bits-1) := by
  unfold addSigned at h
  split at h
  · next hb =>
    obtain rfl := Option.some.inj h
    exact ⟨rfl,hb⟩
  · cases h

/-! ## Geometry -/

/-- The cluster sizes of devices with 512, 1024, 2048 and 4096 byte sectors. -/
def IsCluster (c : ℕ) : Prop := c = 4096 ∨ c = 8192 ∨ c = 16384 ∨ c = 32768

structure Iom.Mounted (m : Iom) : Prop where
  cluster : IsCluster m.clusterSize
  sbiCluster : m.sbi.clusterSize = m.clusterSize
  sbStart : m.sbi.sbStart = 0
  ibitmapStart : m.sbi.ibitmapStart = m.clusterSize
  ibitmapSize : m.sbi.ibitmapSize = m.clusterSize
  dbitmapStart : m.sbi.dbitmapStart = 2 * m.clusterSize
  itableStart : m.sbi.itableStart = 3 * m.clusterSize
  dareaStart : m.sbi.dareaStart = 4 * m.clusterSize
  sbDareaStart : m.superBlock.sbDareaStart = 4
  rootIno : m.sbi.rootIno = 2
  ibmapSome : m.iomBufIbmap.isSome = true
  dbmapSome : m.iomBufDbmap.isSome = true

instance (c : ℕ) : Decidable (IsCluster c) := inferInstanceAs (Decidable (_ ∨ _))

instance (m : Iom) : Decidable m.Mounted :=
  decidable_of_iff (IsCluster m.clusterSize ∧ m.sbi.clusterSize = m.clusterSize ∧ m.sbi.sbStart = 0 ∧
    m.sbi.ibitmapStart = m.clusterSize ∧ m.sbi.ibitmapSize = m.clusterSize ∧
    m.sbi.dbitmapStart = 2 * m.clusterSize ∧ m.sbi.itableStart = 3 * m.clusterSize ∧
    m.sbi.dareaStart = 4 * m.clusterSize ∧ m.superBlock.sbDareaStart = 4 ∧ m.sbi.rootIno = 2 ∧
    m.iomBufIbmap.isSome = true ∧ m.iomBufDbmap.isSome = true)
    ⟨fun ⟨h1,h2,h3,h4,h5,h6,h7,h8,h9,h10,h11,h12⟩ => ⟨h1,h2,h3,h4,h5,h6,h7,h8,h9,h10,h11,h12⟩,
      fun h => ⟨h.1,h.2,h.3,h.4,h.5,h.6,h.7,h.8,h.9,h.10,h.11,h.12⟩⟩

/-- The inode bitmap and the data bitmap, and their bits. -/
def Iom.ibmap (m : Iom) : Mem := m.iomBufIbmap.getD zeros
def Iom.dbmap (m : Iom) : Mem := m.iomBufDbmap.getD zeros
def Iom.ibit (m : Iom) (k : ℕ) : Bool := bit m.ibmap k
def Iom.dbit (m : Iom) (b : ℕ) : Bool := bit m.dbmap b

/-- The number of data blocks the bitmap scan covers. -/
def Iom.maxBlock (m : Iom) : ℕ := m.sbi.dareaSize / m.sbi.clusterSize

/-- Device address of data block `b`. -/
def Iom.blockAddr (m : Iom) (b : ℕ) : ℕ := b * m.clusterSize + 4 * m.clusterSize

/-- Device address of the first block of record `k`. -/
def Iom.dataAddr (m : Iom) (k : ℕ) : ℕ := ((m.inode k).iBlocks 0).toNat

namespace Iom.Mounted
variable {m : Iom} (h : m.Mounted)
include h

theorem cluster_le : 4096 ≤ m.clusterSize ∧ m.clusterSize ≤ 32768 := by
  rcases h.cluster with h | h | h | h <;> omega

theorem slots : m.clusterSize / lab4DirEntrySize * lab4DirEntrySize = m.clusterSize := by
  unfold lab4DirEntrySize
  rcases h.cluster with h | h | h | h <;> omega

theorem inodeNum_mul : m.inodeNum * lab4InodeEntrySize = m.clusterSize := by
  unfold Iom.inodeNum lab4InodeEntrySize
  rcases h.cluster with h | h | h | h <;> omega

theorem inodeNum_le : 32 ≤ m.inodeNum ∧ m.inodeNum ≤ 256 := by
  unfold Iom.inodeNum lab4InodeEntrySize
  rcases h.cluster with h | h | h | h <;> omega

theorem ibmap_eq : m.iomBufIbmap = some m.ibmap := by
  obtain ⟨b,hb⟩ := Option.isSome_iff_exists.mp h.ibmapSome
  rw [Iom.ibmap, hb, Option.getD_some]

theorem dbmap_eq : m.iomBufDbmap = some m.dbmap := by
  obtain ⟨b,hb⟩ := Option.isSome_iff_exists.mp h.dbmapSome
  rw [Iom.dbmap, hb, Option.getD_some]

theorem clusterSize_ne_error : toS32 m.clusterSize ≠ lab4Error := by
  have := h.cluster_le
  exact toS32_ne_error (by omega)

variable {b : ℕ}

/-- `do_mkdir` stores the address of its block modulo 2^32. -/
theorem mkdirAddr_eq : m.mkdirAddr b = UInt32.ofNat (m.blockAddr b) := by
  have h4 : (4 : UInt32).toNat = 4 := rfl
  rw [Iom.mkdirAddr, h.sbDareaStart, h.sbiCluster, h4, Iom.blockAddr, Nat.add_comm]

theorem writeBlocknr_eq : m.writeBlocknr b = m.blockAddr b := by rw [Iom.writeBlocknr, h.dareaStart, Iom.blockAddr]

/-- So does `do_write`. -/
theorem writeAddr_eq : m.writeAddr b = UInt32.ofNat (m.blockAddr b) := by rw [Iom.writeAddr, h.writeBlocknr_eq]

/-- The bit of an address in range. -/
theorem blocknrInbmap_eq {v : Inode} (hb : b < 2^31) (ha : (v.iBlocks 0).toNat = m.blockAddr b) : m.blocknrInbmap v = b := by
  have hcs := h.cluster_le
  have hdiff : ((m.blockAddr b : ℕ) : ℤ) - (4 * m.clusterSize : ℕ) = ((b * m.clusterSize : ℕ) : ℤ) := by
    rw [Iom.blockAddr]
    push_cast
    ring
  rw [Iom.blocknrInbmap, ha, h.dareaStart, h.sbiCluster, hdiff, ← Int.ofNat_tdiv,
    Nat.mul_div_cancel _ (by omega), toS32_natCast hb]

end Iom.Mounted

/-! ## Addresses in range -/

theorem Inode.blocknr_eq {v : Inode} (h : (v.iBlocks 0).toNat < 2^31) : v.blocknr = (v.iBlocks 0).toNat := toS32_natCast h

theorem Inode.blockAt_eq {v : Inode} {j : Fin 15} (h : (v.iBlocks j).toNat < 2^31) : v.blockAt j = (v.iBlocks j).toNat :=
  toS32_natCast h

/-! ## Updates of the io manager -/

namespace Iom
variable (m : Iom)

def flushSb : Iom := m.writeDev m.sbi.sbStart m.sbi.clusterSize m.sb
def flushIbmap : Iom := m.writeDev m.sbi.ibitmapStart m.sbi.clusterSize m.ibmap
def flushDbmap : Iom := m.writeDev m.sbi.dbitmapStart m.sbi.clusterSize m.dbmap
def flushItble : Iom := m.writeDev m.sbi.itableStart m.sbi.clusterSize m.iomBufItble
def flushAll : Iom := m.flushSb.flushIbmap.flushDbmap.flushItble

def addFreeInodes (d : ℤ) : Iom :=
  { m with sbi := { m.sbi with sbFreeInodes := m.sbi.sbFreeInodes + d } }.setSuperBlock
    { m.superBlock with sbFreeInodes := Int32.ofInt (m.superBlock.sbFreeInodes.toInt + d) }

def addFreeBlocks (d : ℤ) : Iom :=
  { m with sbi := { m.sbi with sbFreeBlocks := m.sbi.sbFreeBlocks + d } }.setSuperBlock
    { m.superBlock with sbFreeBlocks := Int64.ofInt (m.superBlock.sbFreeBlocks.toInt + d) }

def setIbmap (b : Mem) : Iom := { m with iomBufIbmap := some b }
def setDbmap (b : Mem) : Iom := { m with iomBufDbmap := some b }

/-- The next-inode hint, in the super block and in `struct lab4_sb_info`. -/
def setInoHint (k : ℕ) : Iom :=
  { m.setSuperBlock { m.superBlock with sbLastAllocatedIno := UInt32.ofNat k } with
    sbi := { m.sbi with lastAllocatedIno := k % 2^32 } }

def setBlknr (b : ℕ) : Iom := m.setSuperBlock { m.superBlock with sbLastAllocatedBlknr := UInt32.ofNat b }

/-- What `alloc_new_inode` does to the io manager when it hands out inode `k`. -/
def takeInode (k : ℕ) : Iom := ((m.setIbmap (setBit m.ibmap k)).setInoHint (k + 1)).addFreeInodes (-1)

/-- What `alloc_block_inbmap` does when it hands out block `b`. -/
def takeBlock (b : ℕ) : Iom := (m.setDbmap (setBit m.dbmap b)).addFreeBlocks (-1)

def freeInode (k : ℕ) : Iom := ((m.setIbmap (clearBit m.ibmap k)).setInode k Inode.zero).addFreeInodes 1
def freeBlock (b : ℕ) : Iom := (m.setDbmap (clearBit m.dbmap b)).addFreeBlocks 1

/-- A directory entry at device address `a`. -/
def writeEntry (a : ℕ) (d : DirEntry) : Iom := m.writeDev a lab4DirEntrySize (dirEntryCodec.enc d)

def addLink (f : UInt32 → UInt32) (k : ℕ) : Iom :=
  m.setInode k { m.inode k with iLinksCount := f (m.inode k).iLinksCount }

end Iom

section Fields
variable (m : Iom) (k a n : ℕ) (v : Inode) (sb : SuperBlock) (d : Mem) (x : ℤ) (ft : FileTable)
namespace Iom

@[simp] theorem writeDev_clusterSize : (m.writeDev a n d).clusterSize = m.clusterSize := (rfl)
@[simp] theorem setInode_clusterSize : (m.setInode k v).clusterSize = m.clusterSize := (rfl)
@[simp] theorem setSuperBlock_clusterSize : (m.setSuperBlock sb).clusterSize = m.clusterSize := (rfl)
@[simp] theorem setIbmap_clusterSize : (m.setIbmap d).clusterSize = m.clusterSize := (rfl)
@[simp] theorem setDbmap_clusterSize : (m.setDbmap d).clusterSize = m.clusterSize := (rfl)
@[simp] theorem setInoHint_clusterSize : (m.setInoHint k).clusterSize = m.clusterSize := (rfl)
@[simp] theorem setBlknr_clusterSize : (m.setBlknr k).clusterSize = m.clusterSize := (rfl)
@[simp] theorem addFreeInodes_clusterSize : (m.addFreeInodes x).clusterSize = m.clusterSize := (rfl)
@[simp] theorem addFreeBlocks_clusterSize : (m.addFreeBlocks x).clusterSize = m.clusterSize := (rfl)
@[simp] theorem takeInode_clusterSize : (m.takeInode k).clusterSize = m.clusterSize := (rfl)
@[simp] theorem takeBlock_clusterSize : (m.takeBlock k).clusterSize = m.clusterSize := (rfl)
@[simp] theorem freeInode_clusterSize : (m.freeInode k).clusterSize = m.clusterSize := (rfl)
@[simp] theorem freeBlock_clusterSize : (m.freeBlock k).clusterSize = m.clusterSize := (rfl)
@[simp] theorem setFile_clusterSize : (m.setFile k ft).clusterSize = m.clusterSize := (rfl)

@[simp] theorem setInode_dev : (m.setInode k v).dev = m.dev := (rfl)
@[simp] theorem setSuperBlock_dev : (m.setSuperBlock sb).dev = m.dev := (rfl)
@[simp] theorem setIbmap_dev : (m.setIbmap d).dev = m.dev := (rfl)
@[simp] theorem setDbmap_dev : (m.setDbmap d).dev = m.dev := (rfl)
@[simp] theorem setInoHint_dev : (m.setInoHint k).dev = m.dev := (rfl)
@[simp] theorem setBlknr_dev : (m.setBlknr k).dev = m.dev := (rfl)
@[simp] theorem addFreeInodes_dev : (m.addFreeInodes x).dev = m.dev := (rfl)
@[simp] theorem addFreeBlocks_dev : (m.addFreeBlocks x).dev = m.dev := (rfl)
@[simp] theorem takeInode_dev : (m.takeInode k).dev = m.dev := (rfl)
@[simp] theorem takeBlock_dev : (m.takeBlock k).dev = m.dev := (rfl)
@[simp] theorem freeInode_dev : (m.freeInode k).dev = m.dev := (rfl)
@[simp] theorem freeBlock_dev : (m.freeBlock k).dev = m.dev := (rfl)

end Iom
end Fields

namespace Iom.Mounted
variable {m : Iom} (h : m.Mounted)
include h

theorem writeDev {a n : ℕ} {d : Mem} : (m.writeDev a n d).Mounted :=
  ⟨h.1,h.2,h.3,h.4,h.5,h.6,h.7,h.8,h.9,h.10,h.11,h.12⟩

theorem setInode {k : ℕ} {v : Inode} : (m.setInode k v).Mounted :=
  ⟨h.1,h.2,h.3,h.4,h.5,h.6,h.7,h.8,h.9,h.10,h.11,h.12⟩

theorem setFile {k : ℕ} {ft : FileTable} : (m.setFile k ft).Mounted :=
  ⟨h.1,h.2,h.3,h.4,h.5,h.6,h.7,h.8,h.9,h.10,h.11,h.12⟩

theorem setIbmap {b : Mem} : (m.setIbmap b).Mounted :=
  ⟨h.1,h.2,h.3,h.4,h.5,h.6,h.7,h.8,h.9,h.10,rfl,h.12⟩

theorem setDbmap {b : Mem} : (m.setDbmap b).Mounted :=
  ⟨h.1,h.2,h.3,h.4,h.5,h.6,h.7,h.8,h.9,h.10,h.11,rfl⟩

theorem setSuperBlock {sb : SuperBlock} (hsb : sb.sbDareaStart = 4) : (m.setSuperBlock sb).Mounted :=
  ⟨h.1,h.2,h.3,h.4,h.5,h.6,h.7,h.8,(congrArg _ superBlockCodec.get_put_self).trans hsb,h.10,h.11,h.12⟩

theorem setBlknr {b : ℕ} : (m.setBlknr b).Mounted := h.setSuperBlock h.sbDareaStart

theorem setInoHint {k : ℕ} : (m.setInoHint k).Mounted := by
  have h' : (m.setSuperBlock { m.superBlock with sbLastAllocatedIno := UInt32.ofNat k }).Mounted :=
    h.setSuperBlock h.sbDareaStart
  exact ⟨h'.1,h'.2,h'.3,h'.4,h'.5,h'.6,h'.7,h'.8,h'.9,h'.10,h'.11,h'.12⟩

theorem addFreeInodes {x : ℤ} : (m.addFreeInodes x).Mounted := by
  have h' : ({ m with sbi := { m.sbi with sbFreeInodes := m.sbi.sbFreeInodes + x } } : Iom).Mounted :=
    ⟨h.1,h.2,h.3,h.4,h.5,h.6,h.7,h.8,h.9,h.10,h.11,h.12⟩
  exact h'.setSuperBlock h.sbDareaStart

theorem addFreeBlocks {x : ℤ} : (m.addFreeBlocks x).Mounted := by
  have h' : ({ m with sbi := { m.sbi with sbFreeBlocks := m.sbi.sbFreeBlocks + x } } : Iom).Mounted :=
    ⟨h.1,h.2,h.3,h.4,h.5,h.6,h.7,h.8,h.9,h.10,h.11,h.12⟩
  exact h'.setSuperBlock h.sbDareaStart

theorem flushAll : m.flushAll.Mounted := h.writeDev.writeDev.writeDev.writeDev
theorem takeInode {k : ℕ} : (m.takeInode k).Mounted := h.setIbmap.setInoHint.addFreeInodes
theorem takeBlock {b : ℕ} : (m.takeBlock b).Mounted := h.setDbmap.addFreeBlocks
theorem freeInode {k : ℕ} : (m.freeInode k).Mounted := h.setIbmap.setInode.addFreeInodes
theorem freeBlock {b : ℕ} : (m.freeBlock b).Mounted := h.setDbmap.addFreeBlocks
theorem writeEntry {a : ℕ} {d : DirEntry} : (m.writeEntry a d).Mounted := h.writeDev
theorem addLink {f : UInt32 → UInt32} {k : ℕ} : (m.addLink f k).Mounted := h.setInode

end Iom.Mounted

/-! ## Writes of which nothing is known -/

/-- At most bytes of the device differ. -/
def Iom.OnDev (m m' : Iom) : Prop := ∃ x, m' = { m with dev := { m.dev with bytes := x } }

namespace Iom.OnDev
variable {m m' m'' : Iom}

theorem refl (m : Iom) : m.OnDev m := ⟨m.dev.bytes,rfl⟩

theorem writeDev (m : Iom) (a n : ℕ) (x : Mem) : m.OnDev (m.writeDev a n x) := ⟨_,rfl⟩

theorem trans (h : m.OnDev m') (h' : m'.OnDev m'') : m.OnDev m'' := by
  obtain ⟨x,rfl⟩ := h
  obtain ⟨y,rfl⟩ := h'
  exact ⟨y,rfl⟩

theorem mounted (h : m.OnDev m') (hm : m.Mounted) : m'.Mounted := by
  obtain ⟨x,rfl⟩ := h
  exact ⟨hm.1,hm.2,hm.3,hm.4,hm.5,hm.6,hm.7,hm.8,hm.9,hm.10,hm.11,hm.12⟩

/-- What does not read the device is as it was. -/
theorem congr {α : Type} {f : Iom → α} (hf : ∀ m d, f { m with dev := d } = f m) (h : m.OnDev m') : f m' = f m := by
  obtain ⟨x,rfl⟩ := h
  exact hf m _

end Iom.OnDev

end SimpleFS
