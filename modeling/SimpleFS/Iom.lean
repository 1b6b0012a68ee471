import SimpleFS.Layout
import SimpleFS.Machine.Program

/-! # The io manager and the calls it makes on its environment

The state is one `struct io_manager`: the opened device, the four metadata buffers and the in-memory
super block. Everything the program cannot control is a function of the number of calls already made:
whether the next device call or allocation fails, the time of day, `errno`, and the value an
uninitialised variable happens to hold.
-/
namespace SimpleFS
open Bytes Machine

/-! ## Conversions between C integer types -/

def toS32 (x : ℤ) : ℤ := (BitVec.ofInt 32 x).toInt
def toU32 (x : ℤ) : ℕ := (BitVec.ofInt 32 x).toNat

/-- Signed addition; overflow has no defined result. -/
def addSigned (bits : ℕ) (x d : ℤ) : Option ℤ :=
  if -2^(bits-1) ≤ x + d ∧ x + d < 2^(bits-1) then some (x + d) else none

/-! ## State -/

structure Device where
  bytes : Mem
  /-- What `BLKGETSIZE` reports: the length in units of 512 bytes. -/
  blkgetsize : ℕ
  /-- What `BLKSSZGET` reports: the logical sector size. -/
  blksszget : ℕ

structure FileTable where
  ino : UInt32
  size : ℤ
  used : Bool
  rwoffset : ℤ
  flags : ℕ
deriving DecidableEq

def FileTable.empty : FileTable := ⟨0,0,false,0,0⟩

structure SbInfo where
  studentId : UInt32
  sectorSize : ℤ
  clusterSize : ℕ
  noOfSectors : ℤ
  noOfUsedBlocks : ℤ
  rootIno : UInt32
  reservedIno : UInt32
  reserved : ℕ
  sbStart : ℕ
  sbSize : ℕ
  ibitmapStart : ℕ
  ibitmapSize : ℕ
  dbitmapStart : ℕ
  dbitmapSize : ℕ
  itableStart : ℕ
  itableSize : ℕ
  dareaStart : ℕ
  dareaSize : ℕ
  sbFreeInodes : ℤ
  sbFreeBlocks : ℤ
  inodeSize : ℕ
  direntrySize : ℕ
  lastAllocatedIno : ℕ
  lastAllocatedBlknr : ℕ
  fileTable : ℕ → FileTable

/-- `struct io_manager`. The bitmap buffers are pointers that two error paths free: `none` is a
dangling pointer. -/
structure Iom where
  dev : Device
  noOfSectors : ℤ
  blkSize : ℕ
  clusterSize : ℕ
  sb : Mem
  sbi : SbInfo
  iomBufIbmap : Option Mem
  iomBufDbmap : Option Mem
  iomBufItble : Mem

def Iom.superBlock (m : Iom) : SuperBlock := superBlockCodec.get m.sb 0
def Iom.setSuperBlock (m : Iom) (v : SuperBlock) : Iom := { m with sb := superBlockCodec.put m.sb 0 v }

/-- Record `k` of the inode table buffer. -/
def Iom.inode (m : Iom) (k : ℕ) : Inode := inodeCodec.get m.iomBufItble (k * lab4InodeEntrySize)
def Iom.setInode (m : Iom) (k : ℕ) (v : Inode) : Iom :=
  { m with iomBufItble := inodeCodec.put m.iomBufItble (k * lab4InodeEntrySize) v }

/-- The number of whole records in a one-cluster buffer. -/
def Iom.inodeNum (m : Iom) : ℕ := m.clusterSize / lab4InodeEntrySize

def Iom.setFile (m : Iom) (fid : ℕ) (ft : FileTable) : Iom :=
  { m with sbi := { m.sbi with fileTable := Function.update m.sbi.fileTable fid ft } }

structure Env where
  ioFails : ℕ → Bool
  mallocFails : ℕ → Bool
  time : ℕ → UInt32
  errno : ℕ → ℤ
  indet : ℕ → ℤ
  /-- What a fresh allocation holds. -/
  heap : ℕ → Mem
  uid : UInt16
  gid : UInt16
  /-- How many loop iterations or nested calls are followed. -/
  fuel : ℕ

/-- `pread`, `pwrite`, `read` and `write` succeed throughout. -/
def Env.IoOk (e : Env) : Prop := ∀ t, e.ioFails t = false

def Env.MallocOk (e : Env) : Prop := ∀ t, e.mallocFails t = false

/-- Device calls and allocations succeed throughout. -/
structure Env.Nominal (e : Env) : Prop where
  io : e.IoOk
  malloc : e.MallocOk

theorem Env.IoOk.not_malloc {e : Env} {P : Prop} (hio : e.IoOk) (hp : P) (h : ¬(e.Nominal ∧ P)) : ¬e.MallocOk :=
  fun hm => h ⟨⟨hio,hm⟩,hp⟩

structure Sys where
  iom : Iom
  clock : ℕ

def Sys.next (s : Sys) : Sys := { s with clock := s.clock + 1 }

abbrev M := Prog Env Sys

/-! ## Calls -/

def getIom : M Iom := fun _ s => some (s.iom,s)
def setIom (m : Iom) : M Unit := fun _ s => some ((),{ s with iom := m })
def modifyIom (f : Iom → Iom) : M Unit := fun _ s => some ((),{ s with iom := f s.iom })

def malloc : M Bool := fun e s => some (!e.mallocFails s.clock,s.next)
def timeNull : M UInt32 := fun e s => some (e.time s.clock,s.next)
def errno : M ℤ := fun e s => some (e.errno s.clock,s.next)
def getuid : M UInt16 := fun e s => some (e.uid,s)
def getgid : M UInt16 := fun e s => some (e.gid,s)

/-- The value of a variable that was never assigned. -/
def indeterminate : M ℤ := fun e s => some (e.indet s.clock,s.next)

/-- `pread` into an allocation of `cap` bytes that holds `buf`: the result as the `int` every caller
keeps, and what the allocation holds afterwards. A transfer is complete or fails. -/
def pread (cap : ℕ) (buf : Mem) (size : ℕ) (offset : ℤ) : M (ℤ × Mem) := fun e s =>
  if offset < 0 ∨ e.ioFails s.clock = true then some ((lab4Error,buf),s.next)
  else if cap < size then none
  else some ((toS32 size,splice buf 0 size (s.iom.dev.bytes.shift offset.toNat)),s.next)

def Iom.writeDev (m : Iom) (offset size : ℕ) (data : Mem) : Iom :=
  { m with dev := { m.dev with bytes := splice m.dev.bytes offset size data } }

def pwrite (data : Mem) (size : ℕ) (offset : ℤ) : M ℤ := fun e s =>
  if offset < 0 ∨ e.ioFails s.clock = true then some (lab4Error,s.next)
  else some (toS32 size,{ s.next with iom := s.iom.writeDev offset.toNat size data })

/-! ## Rules of the calls -/

section Rules
variable {u : Prop} {e : Env} {s : Sys} {α : Type}
open Prog

@[simp] theorem Sys.next_iom : s.next.iom = s.iom := (rfl)

@[simp] theorem wp_getIom {Q : Iom → Sys → Prop} : wp u getIom Q e s ↔ Q s.iom s := by
  unfold wp
  rfl
@[simp] theorem wp_setIom {m : Iom} {Q : Unit → Sys → Prop} : wp u (setIom m) Q e s ↔ Q () { s with iom := m } := by
  unfold wp
  rfl
@[simp] theorem wp_modifyIom {f : Iom → Iom} {Q : Unit → Sys → Prop} :
    wp u (modifyIom f) Q e s ↔ Q () { s with iom := f s.iom } := by
  unfold wp
  rfl
@[simp] theorem wp_malloc {Q : Bool → Sys → Prop} : wp u malloc Q e s ↔ Q (!e.mallocFails s.clock) s.next := by
  unfold wp
  rfl
@[simp] theorem wp_timeNull {Q : UInt32 → Sys → Prop} : wp u timeNull Q e s ↔ Q (e.time s.clock) s.next := by
  unfold wp
  rfl
@[simp] theorem wp_errno {Q : ℤ → Sys → Prop} : wp u errno Q e s ↔ Q (e.errno s.clock) s.next := by
  unfold wp
  rfl
@[simp] theorem wp_getuid {Q : UInt16 → Sys → Prop} : wp u getuid Q e s ↔ Q e.uid s := by
  unfold wp
  rfl
@[simp] theorem wp_getgid {Q : UInt16 → Sys → Prop} : wp u getgid Q e s ↔ Q e.gid s := by
  unfold wp
  rfl
@[simp] theorem wp_indeterminate {Q : ℤ → Sys → Prop} :
    wp u indeterminate Q e s ↔ Q (e.indet s.clock) s.next := by
  unfold wp
  rfl

variable {cap size : ℕ} {buf data : Mem} {offset : ℤ}

theorem wp_pread {Q : ℤ × Mem → Sys → Prop} : wp u (pread cap buf size offset) Q e s ↔
    (offset < 0 ∨ e.ioFails s.clock = true → Q (lab4Error,buf) s.next) ∧
    (¬(offset < 0 ∨ e.ioFails s.clock = true) → (cap < size → u) ∧
      (¬cap < size → Q (toS32 size,splice buf 0 size (s.iom.dev.bytes.shift offset.toNat)) s.next)) := by
  unfold wp pread
  by_cases h : offset < 0 ∨ e.ioFails s.clock = true
  · simp [h]
  · by_cases h' : cap < size <;> simp [h, h']

theorem wp_pwrite {Q : ℤ → Sys → Prop} : wp u (pwrite data size offset) Q e s ↔
    (offset < 0 ∨ e.ioFails s.clock = true → Q lab4Error s.next) ∧
    (¬(offset < 0 ∨ e.ioFails s.clock = true) →
      Q (toS32 size) { s.next with iom := s.iom.writeDev offset.toNat size data }) := by
  unfold wp pwrite
  by_cases h : offset < 0 ∨ e.ioFails s.clock = true <;> simp [h]

end Rules

end SimpleFS
