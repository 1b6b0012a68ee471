import SimpleFS.Undoing

/-! # Removals as updates of single places

A removal is a flush behind a few updates, each of one place: a bit with its counter, a record, a link count,
a window of the device. Updates of different places commute and the last flush writes all metadata, so
of a flush in between nothing is left.
-/
namespace SimpleFS
open Bytes Machine Prog SlotTree

/-! ## Places -/

/-- One update of the io manager. -/
inductive Update
  | freeBlock (b : ℕ)
  | freeInode (k : ℕ)
  | dropLink (D : ℕ)
  | write (a n : ℕ) (x : Mem)

namespace Update

def apply : Update → Iom → Iom
  | freeBlock b, m => m.freeBlock b
  | freeInode k, m => m.freeInode k
  | dropLink D, m => m.addLink (· - 1) D
  | write a n x, m => m.writeDev a n x

/-- Two windows that do not meet, or a record that is given back and another one that loses a link. -/
def Apart : Update → Update → Prop
  | write a n _, write b l _ => a + n ≤ b ∨ b + l ≤ a
  | freeInode k, dropLink D => D ≠ k
  | dropLink D, freeInode k => D ≠ k
  | _, _ => True

end Update

def Iom.updates (m : Iom) (l : List Update) : Iom := l.foldl (fun m u => u.apply m) m

/-- At most the `n` bytes of the device from address `a` on differ. -/
structure Iom.SameBut (m m' : Iom) (a n : ℕ) : Prop where
  onDev : m.OnDev m'
  bytes : ∀ i, i < a ∨ a + n ≤ i → m'.dev.bytes i = m.dev.bytes i

variable {m m' : Iom} {a b n l k D E : ℕ} {x y : Mem} {u v : Update}

/-! ## Updates that commute -/

namespace Iom

/-- Two counters of the super block. -/
theorem addFree_comm (c d : ℤ) : (m.addFreeBlocks d).addFreeInodes c = (m.addFreeInodes c).addFreeBlocks d := by
  unfold addFreeBlocks addFreeInodes
  rw [superBlock_setSuperBlock, superBlock_setSuperBlock]
  unfold setSuperBlock
  dsimp only
  rw [Codec.put_put, Codec.put_put]

theorem setInode_comm {v w : Inode} (h : k ≠ l) : (m.setInode k v).setInode l w = (m.setInode l w).setInode k v := by
  have hsize : inodeCodec.size = lab4InodeEntrySize := rfl
  refine congrArg (fun z => ({ m with iomBufItble := z } : Iom)) (splice_comm ?_)
  rw [hsize]
  unfold lab4InodeEntrySize
  omega

/-- Record and bit of one inode and those of another. -/
theorem freeInode_comm (h : k ≠ l) : (m.freeInode k).freeInode l = (m.freeInode l).freeInode k := by
  have ht := congrArg iomBufItble (setInode_comm (m := m) (v := Inode.zero) (w := Inode.zero) h)
  simp only [setInode] at ht
  simp only [freeInode, addFreeInodes, setSuperBlock, setInode, setIbmap, superBlock, ibmap, Option.getD_some,
    Codec.get_put_self, Codec.put_put]
  rw [clearBit_comm, ht]

theorem freeBlock_comm : (m.freeBlock b).freeBlock a = (m.freeBlock a).freeBlock b := by
  simp only [freeBlock, addFreeBlocks, setSuperBlock, setDbmap, superBlock, dbmap, Option.getD_some,
    Codec.get_put_self, Codec.put_put]
  rw [clearBit_comm]

theorem freeInode_freeBlock : (m.freeBlock b).freeInode k = (m.freeInode k).freeBlock b := by
  have hc : ∀ n : Iom, (n.addFreeBlocks 1).addFreeInodes 1 = (n.addFreeInodes 1).addFreeBlocks 1 := fun n => addFree_comm 1 1
  exact hc (((m.setDbmap (clearBit m.dbmap b)).setIbmap (clearBit m.ibmap k)).setInode k Inode.zero)

/-- A link is counted in a record, whatever happens to the others. -/
theorem addLink_setInode {f : UInt32 → UInt32} {v : Inode} (h : D ≠ k) :
    (m.setInode k v).addLink f D = (m.addLink f D).setInode k v := by
  have hin : (m.setInode k v).inode D = m.inode D := by rw [inode_setInode, Function.update_of_ne h]
  unfold addLink
  rw [hin, setInode_comm h.symm]

theorem freeInode_addLink {f : UInt32 → UInt32} (h : D ≠ k) :
    (m.freeInode k).addLink f D = (m.addLink f D).freeInode k := by
  have hl := addLink_setInode (m := m.setIbmap (clearBit m.ibmap k)) (f := f) (v := Inode.zero) h
  exact congrArg (addFreeInodes · 1) hl

theorem addLink_comm {f : UInt32 → UInt32} : (m.addLink f D).addLink f E = (m.addLink f E).addLink f D := by
  by_cases h : E = D
  · rw [h]
  · have hin : (m.addLink f E).inode D = m.inode D := (inode_setInode ..).trans (Function.update_of_ne (Ne.symm h) ..)
    refine (addLink_setInode h).trans ?_
    unfold addLink at hin ⊢
    rw [hin]

theorem freeBlock_addLink {f : UInt32 → UInt32} : (m.addLink f D).freeBlock b = (m.freeBlock b).addLink f D := by
  unfold addLink freeBlock addFreeBlocks
  simp only [setSuperBlock, setInode, setDbmap, superBlock, dbmap, inode]

theorem freeBlock_writeDev : (m.writeDev a n x).freeBlock b = (m.freeBlock b).writeDev a n x := by
  unfold freeBlock addFreeBlocks
  simp only [setSuperBlock, setDbmap, superBlock, dbmap, writeDev]

theorem freeInode_writeDev : (m.writeDev a n x).freeInode k = (m.freeInode k).writeDev a n x := by
  unfold freeInode addFreeInodes
  simp only [setSuperBlock, setInode, setIbmap, superBlock, ibmap, writeDev]

theorem addLink_writeDev {f : UInt32 → UInt32} : (m.writeDev a n x).addLink f D = (m.addLink f D).writeDev a n x := by
  unfold addLink
  simp only [setInode, inode, writeDev]

end Iom

namespace Update

theorem Apart.comm (h : u.Apart v) (m : Iom) : v.apply (u.apply m) = u.apply (v.apply m) := by
  cases u with
  | freeBlock b =>
    cases v with
    | freeBlock a => exact Iom.freeBlock_comm
    | freeInode k => exact Iom.freeInode_freeBlock
    | dropLink D => exact (Iom.freeBlock_addLink (f := (· - 1))).symm
    | write a n x => exact Iom.freeBlock_writeDev.symm
  | freeInode k =>
    cases v with
    | freeBlock b => exact Iom.freeInode_freeBlock.symm
    | freeInode l =>
      by_cases hk : k = l
      · rw [hk]
      · exact Iom.freeInode_comm hk
    | dropLink D => exact Iom.freeInode_addLink (f := (· - 1)) h
    | write a n x => exact Iom.freeInode_writeDev.symm
  | dropLink D =>
    cases v with
    | freeBlock b => exact Iom.freeBlock_addLink (f := (· - 1))
    | freeInode k => exact (Iom.freeInode_addLink (f := (· - 1)) h).symm
    | dropLink E => exact Iom.addLink_comm (f := (· - 1))
    | write a n x => exact (Iom.addLink_writeDev (f := (· - 1))).symm
  | write a n x =>
    cases v with
    | freeBlock b => exact Iom.freeBlock_writeDev
    | freeInode k => exact Iom.freeInode_writeDev
    | dropLink D => exact Iom.addLink_writeDev (f := (· - 1))
    | write b l y =>
      exact congrArg (fun z => ({ m with dev := { m.dev with bytes := z } } : Iom)) (splice_comm h)

theorem mounted (hm : m.Mounted) (u : Update) : (u.apply m).Mounted := by
  cases u with
  | freeBlock b => exact hm.freeBlock
  | freeInode k => exact hm.freeInode
  | dropLink D => exact hm.addLink (f := (· - 1))
  | write a n x => exact hm.writeDev

theorem clusterSize (u : Update) : (u.apply m).clusterSize = m.clusterSize := by
  cases u with
  | freeBlock b => exact Iom.freeBlock_clusterSize m b
  | freeInode k => exact Iom.freeInode_clusterSize m k
  | dropLink D => exact Iom.setInode_clusterSize m D _
  | write a n x => exact Iom.writeDev_clusterSize m a n x

end Update

namespace Iom
variable {us vs : List Update}

@[simp] theorem updates_nil : m.updates [] = m := rfl
@[simp] theorem updates_cons : m.updates (u :: us) = (u.apply m).updates us := rfl

theorem mounted_updates (hm : m.Mounted) : (m.updates us).Mounted := by
  induction us generalizing m with
  | nil => exact hm
  | cons u us ih => exact ih (u.mounted hm)

theorem clusterSize_updates : (m.updates us).clusterSize = m.clusterSize := by
  induction us generalizing m with
  | nil => rfl
  | cons u us ih => exact ih.trans u.clusterSize

theorem updates_apply (h : ∀ v ∈ vs, u.Apart v) : (u.apply m).updates vs = u.apply (m.updates vs) := by
  induction vs generalizing m with
  | nil => rfl
  | cons v vs ih =>
    rw [updates_cons, updates_cons, (h v (by simp)).comm]
    exact ih (fun w hw => h w (by simp [hw]))

/-- Two groups of updates commute when their members are apart. -/
theorem updates_comm (h : ∀ u ∈ us, ∀ v ∈ vs, u.Apart v) : (m.updates us).updates vs = (m.updates vs).updates us := by
  induction us generalizing m with
  | nil => rfl
  | cons u us ih =>
    rw [updates_cons, updates_cons, ih (fun w hw => h w (by simp [hw])), updates_apply (h u (by simp))]

/-! ## Differing bytes -/

namespace SameBut
variable (h : m.SameBut m' a n)
include h

theorem apply (u : Update) : (u.apply m).SameBut (u.apply m') a n := by
  obtain ⟨⟨z,rfl⟩,hb⟩ := h
  cases u with
  | freeBlock b => exact ⟨⟨z,rfl⟩,hb⟩
  | freeInode k => exact ⟨⟨z,rfl⟩,hb⟩
  | dropLink D => exact ⟨⟨z,rfl⟩,hb⟩
  | write b l x =>
    refine ⟨⟨_,rfl⟩,fun i hi => ?_⟩
    change splice z b l x i = splice m.dev.bytes b l x i
    unfold splice
    split
    · rfl
    · exact hb i hi

theorem updates : (m.updates us).SameBut (m'.updates us) a n := by
  induction us generalizing m m' with
  | nil => exact h
  | cons u us ih => exact ih (h.apply u)

/-- A write that covers the bytes erases the difference. -/
theorem erase : (Update.write a n x).apply m' = (Update.write a n x).apply m := by
  obtain ⟨⟨z,rfl⟩,hb⟩ := h
  have hz : splice z a n x = splice m.dev.bytes a n x := by
    funext i
    unfold splice
    split
    · rfl
    · next hi => exact hb i (by omega)
  exact congrArg (fun z => ({ m with dev := { m.dev with bytes := z } } : Iom)) hz

end SameBut

/-- The flush writes the whole metadata, so it covers what was there before. -/
theorem flushAll_congr (hm : m.Mounted) (h : m.SameBut m' 0 (4 * m.clusterSize)) : m'.flushAll = m.flushAll := by
  have hm' := h.onDev.mounted hm
  have hcs : m'.clusterSize = m.clusterSize := h.onDev.congr (fun _ _ => rfl)
  obtain ⟨⟨z,rfl⟩,hb⟩ := h
  have hz : (flushAll { m with dev := { m.dev with bytes := z } }).dev.bytes = m.flushAll.dev.bytes := by
    funext i
    simp only [flushAll, flushSb, flushIbmap, flushDbmap, flushItble, writeDev, hm.sbStart, hm.ibitmapStart,
      hm.dbitmapStart, hm.itableStart, hm.sbiCluster, splice]
    split_ifs <;> first | rfl | exact hb i (by omega)
  exact congrArg (fun z => ({ m with dev := { m.dev with bytes := z } } : Iom)) hz

theorem sameBut_flushAll (hm : m.Mounted) : m.SameBut m.flushAll 0 (4 * m.clusterSize) := by
  refine ⟨⟨_,rfl⟩,fun i hi => ?_⟩
  simp only [flushAll, flushSb, flushIbmap, flushDbmap, flushItble, writeDev, hm.sbStart, hm.ibitmapStart,
    hm.dbitmapStart, hm.itableStart, hm.sbiCluster]
  rw [splice_outside (by omega), splice_outside (by omega), splice_outside (by omega), splice_outside (by omega)]

/-- A flush between two groups of updates leaves no trace. -/
theorem flushAll_updates (hm : m.Mounted) : (m.flushAll.updates us).flushAll = (m.updates us).flushAll := by
  refine flushAll_congr (mounted_updates hm) ?_
  rw [clusterSize_updates]
  exact (sameBut_flushAll hm).updates

end Iom

end SimpleFS
