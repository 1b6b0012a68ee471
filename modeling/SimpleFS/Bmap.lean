import SimpleFS.Iom
import SimpleFS.Bytes.BitSet

/-! # Bitmaps: `bmap_raw.c`, `bmap.c` and the counters of `inode.c` -/
namespace SimpleFS
open Bytes Machine Prog

/-! ## Bit primitives -/

def lab4SetBit (nr : ℕ) (addr : Mem) : ℕ × Mem :=
  let mask := 1 <<< (nr &&& 0x07)
  let old := (addr (nr >>> 3)).toNat
  (mask &&& old,Function.update addr (nr >>> 3) (UInt8.ofNat (old ||| mask)))

def lab4ClearBit (nr : ℕ) (addr : Mem) : ℕ × Mem :=
  let mask := 1 <<< (nr &&& 0x07)
  let old := (addr (nr >>> 3)).toNat
  (mask &&& old,Function.update addr (nr >>> 3) (addr (nr >>> 3) &&& ~~~UInt8.ofNat mask))

def lab4TestBit (nr : ℕ) (addr : Mem) : ℕ :=
  let mask := 1 <<< (nr &&& 0x07)
  mask &&& (addr (nr >>> 3)).toNat

private theorem shiftRight_three (nr : ℕ) : nr >>> 3 = nr / 8 := Nat.shiftRight_eq_div_pow nr 3
private theorem and_seven (nr : ℕ) : nr &&& 0x07 = nr % 8 := Nat.and_two_pow_sub_one_eq_mod nr 3

theorem lab4TestBit_eq {nr : ℕ} {addr : Mem} : lab4TestBit nr addr = if nr ∈ bits addr then 2 ^ (nr % 8) else 0 := by
  simp only [lab4TestBit, shiftRight_three, and_seven, Nat.shiftLeft_eq, one_mul, Nat.two_pow_and, mem_bits, bit]
  cases Nat.testBit (addr (nr / 8)).toNat (nr % 8) <;> simp

theorem lab4TestBit_ne_zero {nr : ℕ} {addr : Mem} : lab4TestBit nr addr ≠ 0 ↔ nr ∈ bits addr := by
  rw [lab4TestBit_eq]
  split <;> simp [*]

theorem lab4TestBit_eq_zero {nr : ℕ} {addr : Mem} : lab4TestBit nr addr = 0 ↔ bit addr nr = false := by
  rw [← Bool.not_eq_true, ← mem_bits, ← lab4TestBit_ne_zero, not_ne_iff]

theorem lab4TestBit_congr {nr : ℕ} {addr addr' : Mem} (h : nr ∈ bits addr ↔ nr ∈ bits addr') :
    lab4TestBit nr addr = lab4TestBit nr addr' := by
  rw [lab4TestBit_eq, lab4TestBit_eq, if_congr h rfl rfl]

theorem lab4SetBit_snd (nr : ℕ) (addr : Mem) : (lab4SetBit nr addr).2 = setBit addr nr := by
  simp only [lab4SetBit, shiftRight_three, and_seven, Nat.shiftLeft_eq, one_mul, setBit]
  congr 1
  apply UInt8.toNat_inj.mp
  rw [UInt8.toNat_or, bitMask_toNat, UInt8.toNat_ofNat', Nat.mod_eq_of_lt]
  exact Nat.or_lt_two_pow (addr (nr / 8)).toNat_lt (Nat.pow_lt_pow_right (by omega) (Nat.mod_lt _ (by omega)))

theorem lab4ClearBit_snd (nr : ℕ) (addr : Mem) : (lab4ClearBit nr addr).2 = clearBit addr nr := by
  simp only [lab4ClearBit, shiftRight_three, and_seven, Nat.shiftLeft_eq, one_mul, clearBit, bitMask]

/-- One of the two primitives that change a bit. -/
inductive BitOp
  | set
  | clear

namespace BitOp

def run : BitOp → ℕ → Mem → ℕ × Mem
  | set => lab4SetBit
  | clear => lab4ClearBit

/-- What a primitive makes of the set of bits. -/
def onSet : BitOp → ℕ → Set ℕ → Set ℕ
  | set, nr, s => insert nr s
  | clear, nr, s => s \ {nr}

variable {op op' : BitOp} {p q : ℕ} {addr : Mem}

/-- Each of the two inserts into the set or removes from it. -/
theorem bits_run : bits (op.run p addr).2 = op.onSet p (bits addr) := by
  cases op with
  | set => exact (congrArg bits (lab4SetBit_snd p addr)).trans bits_setBit
  | clear => exact (congrArg bits (lab4ClearBit_snd p addr)).trans bits_clearBit

/-- Both return the test of the bit. -/
theorem run_fst : (op.run p addr).1 = lab4TestBit p addr := by cases op <;> rfl

theorem mem_onSet {s : Set ℕ} (h : q ≠ p) : q ∈ op.onSet p s ↔ q ∈ s := by
  cases op <;> simp [onSet, h]

theorem onSet_comm {s : Set ℕ} (h : q ≠ p) : op'.onSet q (op.onSet p s) = op.onSet p (op'.onSet q s) := by
  cases op <;> cases op'
  · exact Set.insert_comm q p s
  · exact (Set.insert_sdiff_singleton_comm h.symm s).symm
  · exact Set.insert_sdiff_singleton_comm h s
  · exact Set.sdiff_sdiff_comm

/-- The test of another bit stays. -/
theorem test_run (h : q ≠ p) : lab4TestBit q (op.run p addr).2 = lab4TestBit q addr := by
  apply lab4TestBit_congr
  rw [bits_run]
  exact mem_onSet h

theorem run_comm (h : q ≠ p) : (op'.run q (op.run p addr).2).2 = (op.run p (op'.run q addr).2).2 := by
  apply bits_injective
  rw [bits_run, bits_run, bits_run, bits_run, onSet_comm h]

end BitOp

/-- The bitmap primitives keep a set of integers in a buffer. -/
theorem bit_primitives_form_set (addr : Mem) (p q : ℕ) :
    (lab4TestBit p (lab4SetBit p addr).2 ≠ 0 ∧ lab4TestBit p (lab4ClearBit p addr).2 = 0) ∧
    (∀ op : BitOp, q ≠ p → lab4TestBit q (op.run p addr).2 = lab4TestBit q addr) ∧
    (∀ op : BitOp, (op.run p addr).1 ≠ 0 ↔ lab4TestBit p addr ≠ 0) ∧
    (lab4TestBit p addr = 0 → (lab4ClearBit p (lab4SetBit p addr).2).2 = addr) ∧
    ∀ op op' : BitOp, q ≠ p → (op'.run q (op.run p addr).2).2 = (op.run p (op'.run q addr).2).2 ∧
      (op'.run q (op.run p addr).2).1 = (op'.run q addr).1 := by
  refine ⟨⟨?_,?_⟩,fun _ h => BitOp.test_run h,fun _ => ?_,fun h => ?_,fun _ _ h => ⟨BitOp.run_comm h,?_⟩⟩
  · rw [lab4TestBit_ne_zero, lab4SetBit_snd, bits_setBit]
    exact Set.mem_insert p _
  · rw [lab4TestBit_eq_zero, lab4ClearBit_snd, bit_clearBit_self]
  · rw [BitOp.run_fst]
  · rw [lab4SetBit_snd, lab4ClearBit_snd]
    exact clearBit_setBit_self (lab4TestBit_eq_zero.mp h)
  · rw [BitOp.run_fst, BitOp.run_fst, BitOp.test_run h]

/-- Two bits of one byte. -/
theorem bit_primitives_form_set_byte : lab4TestBit 3 (lab4SetBit 5 zeros).2 = lab4TestBit 3 zeros ∧
    (lab4ClearBit 5 (lab4SetBit 5 zeros).2).2 = zeros ∧
    (lab4SetBit 3 (lab4ClearBit 5 zeros).2).2 = (lab4ClearBit 5 (lab4SetBit 3 zeros).2).2 := by
  have h := bit_primitives_form_set zeros 5 3
  exact ⟨h.2.1 .set (by decide),h.2.2.2.1 (by decide),(h.2.2.2.2 .clear .set (by decide)).1⟩

/-! ## Free counters, kept in the super block and in `struct lab4_sb_info` -/

def bumpFreeInodes (d : ℤ) : M Unit := do
  let m ← getIom
  let mem ← lift (addSigned 32 m.sbi.sbFreeInodes d)
  let disk ← lift (addSigned 32 m.superBlock.sbFreeInodes.toInt d)
  setIom ({ m with sbi := { m.sbi with sbFreeInodes := mem } }.setSuperBlock
    { m.superBlock with sbFreeInodes := Int32.ofInt disk })

def bumpFreeBlocks (d : ℤ) : M Unit := do
  let m ← getIom
  let mem ← lift (addSigned 64 m.sbi.sbFreeBlocks d)
  let disk ← lift (addSigned 64 m.superBlock.sbFreeBlocks.toInt d)
  setIom ({ m with sbi := { m.sbi with sbFreeBlocks := mem } }.setSuperBlock
    { m.superBlock with sbFreeBlocks := Int64.ofInt disk })

def incFreeInodes : M Unit := bumpFreeInodes 1
def decFreeInodes : M Unit := bumpFreeInodes (-1)
def incFreeBlocks : M Unit := bumpFreeBlocks 1
def decFreeBlocks : M Unit := bumpFreeBlocks (-1)

/-! ## Allocation -/

/-- The loop both allocators share: test the bit, else step modulo `max`, at most `count` times. A bit
outside the `cap` bytes of the buffer is an access outside the allocation. -/
def bitScan (max cap : ℕ) (buf : Mem) : ℕ → ℕ → Option (Bool × ℕ)
  | 0, pos => some (false,pos)
  | count + 1, pos =>
    if cap ≤ pos >>> 3 then none
    else if lab4TestBit pos buf = 0 then some (true,pos)
    else bitScan max cap buf count ((pos + 1) % max)

def scanAllocateIbmap (hintFreeInode : ℕ) : M (ℤ × ℕ) := do
  let m ← getIom
  match m.iomBufIbmap with
  | none => undefined
  | some buf =>
    let inodePerSeg := m.sbi.ibitmapSize / lab4InodeEntrySize
    let (found,freeInode) ← lift (bitScan inodePerSeg m.clusterSize buf inodePerSeg hintFreeInode)
    if found = true ∧ freeInode < inodePerSeg then
      setIom { m with iomBufIbmap := some (lab4SetBit freeInode buf).2 }
      return (lab4Success,freeInode)
    -- the error path frees the bitmap buffer itself
    setIom { m with iomBufIbmap := none }
    return (lab4Error,freeInode)

def scanAllocateDbmap : M (ℤ × ℕ) := do
  let m ← getIom
  match m.iomBufDbmap with
  | none => undefined
  | some buf =>
    let maxBlock := m.sbi.dareaSize / m.sbi.clusterSize
    let (found,freeBlock) ← lift (bitScan maxBlock m.clusterSize buf maxBlock m.sbi.lastAllocatedBlknr)
    if found = true ∧ freeBlock < maxBlock then
      setIom { m with iomBufDbmap := some (lab4SetBit freeBlock buf).2 }
      decFreeBlocks
      return (lab4Success,freeBlock)
    setIom { m with iomBufDbmap := none }
    return (lab4Error,freeBlock)

def allocBlockInbmap : M (ℤ × ℕ) := do
  let (res,blocknr) ← scanAllocateDbmap
  if res = lab4Error then return (lab4Error,blocknr)
  return (lab4Success,blocknr)

/-! ## Release -/

def scanDeleteDbmap (blocknrInbmap : ℤ) : M Unit := do
  let m ← getIom
  let nr := toU32 blocknrInbmap
  match m.iomBufDbmap with
  | none => undefined
  | some buf =>
    if m.clusterSize ≤ nr >>> 3 then undefined
    else setIom { m with iomBufDbmap := some (lab4ClearBit nr buf).2 }

def scanDeleteIbmap (delIno : ℕ) : M Unit := do
  let m ← getIom
  match m.iomBufIbmap with
  | none => undefined
  | some buf =>
    if m.clusterSize ≤ delIno >>> 3 then undefined
    else setIom { m with iomBufIbmap := some (lab4ClearBit delIno buf).2 }

end SimpleFS
