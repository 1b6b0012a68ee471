import SimpleFS.Calls

/-! # Taking and giving back inodes and blocks

The allocators hand out a number whose bit was clear, the delete helpers clear the bit again. A failing
allocator frees its bitmap buffer, and the restoring read behind it has no defined behaviour; so the
rules here say what happened on every run that has an end.
-/
namespace SimpleFS
open Bytes Machine Prog

/-! ## The bit scan -/

theorem bitScan_found {max cap count pos p : ℕ} {buf : Mem} (h : bitScan max cap buf count pos = some (true,p)) :
    bit buf p = false := by
  induction count generalizing pos with
  | zero => cases h
  | succ count ih =>
    rw [bitScan] at h
    split at h
    · cases h
    · split at h
      · next ht =>
        cases h
        exact lab4TestBit_eq_zero.mp ht
      · exact ih h

theorem bitScan_lt {max cap count pos p : ℕ} {buf : Mem} {found : Bool} (hpos : pos < max)
    (h : bitScan max cap buf count pos = some (found,p)) : p < max := by
  induction count generalizing pos with
  | zero =>
    cases h
    exact hpos
  | succ count ih =>
    rw [bitScan] at h
    split at h
    · cases h
    · split at h
      · cases h
        exact hpos
      · exact ih (Nat.mod_lt _ (by omega)) h

/-- A number found at or behind the start is the first clear one from the start on. -/
theorem bitScan_first {max cap count pos p : ℕ} {buf : Mem} (hpos : pos < max)
    (h : bitScan max cap buf count pos = some (true,p)) : ∀ q, pos ≤ q → q < p → bit buf q = true := by
  intro q hq hqp
  induction count generalizing pos with
  | zero => cases h
  | succ count ih =>
    have hclear := bitScan_found h
    have hp := bitScan_lt hpos h
    rw [bitScan] at h
    split at h
    · cases h
    · split at h
      · cases h
        omega
      · next ht =>
        rw [lab4TestBit_eq_zero, Bool.not_eq_false] at ht
        rcases Nat.eq_or_lt_of_le hq with rfl | hq
        · exact ht
        · rw [Nat.mod_eq_of_lt (by omega)] at h
          exact ih (by omega) h hq

/-- The number the scan tests at step `i`. -/
def scanPos (max pos : ℕ) : ℕ → ℕ
  | 0 => pos
  | i + 1 => (scanPos max pos i + 1) % max

theorem scanPos_shift (max pos i : ℕ) : scanPos max ((pos + 1) % max) i = scanPos max pos (i + 1) := by
  induction i with
  | zero => rfl
  | succ i ih => rw [scanPos, ih, scanPos, scanPos, scanPos]

theorem scanPos_succ (max pos i : ℕ) : scanPos max pos (i + 1) = (pos + (i + 1)) % max := by
  induction i with
  | zero => rfl
  | succ i ih =>
    rw [scanPos, ih, Nat.mod_add_mod]
    rfl

theorem scanPos_of_lt {max pos : ℕ} (hpos : pos < max) (i : ℕ) : scanPos max pos i = (pos + i) % max := by
  cases i with
  | zero => exact (Nat.mod_eq_of_lt hpos).symm
  | succ i => exact scanPos_succ max pos i

/-- From a number in range, `max` steps visit every number. -/
theorem scanPos_surjective {max pos k : ℕ} (hpos : pos < max) (hk : k < max) : ∃ i < max, scanPos max pos i = k := by
  rcases Nat.lt_or_ge k pos with hlt | hge
  · refine ⟨k + max - pos,by omega,?_⟩
    rw [scanPos_of_lt hpos, show pos + (k + max - pos) = k + max by omega, Nat.add_mod_right, Nat.mod_eq_of_lt hk]
  · refine ⟨k - pos,by omega,?_⟩
    rw [scanPos_of_lt hpos, show pos + (k - pos) = k by omega, Nat.mod_eq_of_lt hk]

/-- From `max` itself, the steps behind the first visit the numbers from 1 on, in order. -/
theorem scanPos_max {max i : ℕ} (hi : i + 1 < max) : scanPos max max (i + 1) = i + 1 := by
  rw [scanPos_succ, Nat.add_mod_left, Nat.mod_eq_of_lt hi]

/-- Inside the buffer the scan stops at the first clear bit it visits. -/
theorem bitScan_eq_found {max cap count pos i : ℕ} {buf : Mem} (hcap : ∀ j ≤ i, scanPos max pos j < 8 * cap)
    (hi : i < count) (hset : ∀ j < i, bit buf (scanPos max pos j) = true)
    (hclear : bit buf (scanPos max pos i) = false) :
    bitScan max cap buf count pos = some (true,scanPos max pos i) := by
  induction count generalizing pos i with
  | zero => omega
  | succ count ih =>
    have hin : ¬cap ≤ pos >>> 3 := by
      have := hcap 0 (Nat.zero_le i)
      rw [scanPos] at this
      rw [Nat.shiftRight_eq_div_pow]
      omega
    rw [bitScan, if_neg hin]
    cases i with
    | zero => exact if_pos (lab4TestBit_eq_zero.mpr hclear)
    | succ i =>
      have h0 : lab4TestBit pos buf ≠ 0 := fun h0 => by
        cases (hset 0 (Nat.succ_pos i)).symm.trans (lab4TestBit_eq_zero.mp h0)
      rw [if_neg h0, ← scanPos_shift]
      refine ih (fun j hj => ?_) (by omega) (fun j hj => ?_) ?_
      · rw [scanPos_shift]
        exact hcap (j + 1) (by omega)
      · rw [scanPos_shift]
        exact hset (j + 1) (by omega)
      · rw [scanPos_shift]
        exact hclear

/-- Inside the buffer the scan gives up when every bit it visits is set. -/
theorem bitScan_eq_not_found {max cap count pos : ℕ} {buf : Mem} (hcap : ∀ j < count, scanPos max pos j < 8 * cap)
    (hset : ∀ j < count, bit buf (scanPos max pos j) = true) :
    bitScan max cap buf count pos = some (false,scanPos max pos count) := by
  induction count generalizing pos with
  | zero => rfl
  | succ count ih =>
    have hin : ¬cap ≤ pos >>> 3 := by
      have := hcap 0 (Nat.succ_pos count)
      rw [scanPos] at this
      rw [Nat.shiftRight_eq_div_pow]
      omega
    have h0 : lab4TestBit pos buf ≠ 0 := fun h0 => by
      cases (hset 0 (Nat.succ_pos count)).symm.trans (lab4TestBit_eq_zero.mp h0)
    rw [bitScan, if_neg hin, if_neg h0, ← scanPos_shift]
    refine ih (fun j hj => ?_) (fun j hj => ?_)
    · rw [scanPos_shift]
      exact hcap (j + 1) (by omega)
    · rw [scanPos_shift]
      exact hset (j + 1) (by omega)

variable {e : Env} {s : Sys}

/-! ## Counters -/

/-- Both signed counters of free inodes can take a change by `d`. -/
def Iom.InodeRoom (m : Iom) (d : ℤ) : Prop :=
  (addSigned 32 m.sbi.sbFreeInodes d).isSome ∧ (addSigned 32 m.superBlock.sbFreeInodes.toInt d).isSome

/-- The same for the counters of free blocks. -/
def Iom.BlockRoom (m : Iom) (d : ℤ) : Prop :=
  (addSigned 64 m.sbi.sbFreeBlocks d).isSome ∧ (addSigned 64 m.superBlock.sbFreeBlocks.toInt d).isSome

instance (m : Iom) (d : ℤ) : Decidable (m.InodeRoom d) := inferInstanceAs (Decidable (_ ∧ _))
instance (m : Iom) (d : ℤ) : Decidable (m.BlockRoom d) := inferInstanceAs (Decidable (_ ∧ _))

theorem addSigned_isSome {bits : ℕ} {x d : ℤ} :
    (addSigned bits x d).isSome ↔ -2^(bits-1) ≤ x + d ∧ x + d < 2^(bits-1) := by
  unfold addSigned
  split <;> simp_all

/-- The counters in memory hold values of their types, as those in the super block always do. -/
structure Iom.CountersFit (m : Iom) : Prop where
  inodes : -2^31 ≤ m.sbi.sbFreeInodes ∧ m.sbi.sbFreeInodes < 2^31
  blocks : -2^63 ≤ m.sbi.sbFreeBlocks ∧ m.sbi.sbFreeBlocks < 2^63

theorem Iom.CountersFit.inodeRoom {m : Iom} (h : m.CountersFit) : m.InodeRoom 0 := by
  refine ⟨addSigned_isSome.mpr ?_,addSigned_isSome.mpr ?_⟩
  · rw [Int.add_zero]
    exact h.inodes
  · rw [Int.add_zero]
    exact ⟨Int32.le_toInt _,Int32.toInt_lt _⟩

theorem Iom.CountersFit.blockRoom {m : Iom} (h : m.CountersFit) : m.BlockRoom 0 := by
  refine ⟨addSigned_isSome.mpr ?_,addSigned_isSome.mpr ?_⟩
  · rw [Int.add_zero]
    exact h.blocks
  · rw [Int.add_zero]
    exact ⟨Int64.le_toInt _,Int64.toInt_lt _⟩

theorem wp_bumpFreeInodes {u : Prop} {d : ℤ} {Q : Unit → Sys → Prop} (hu : ¬s.iom.InodeRoom d → u)
    (h : ∀ s', s.iom.InodeRoom d → s'.iom = s.iom.addFreeInodes d → Q () s') : wp u (bumpFreeInodes d) Q e s := by
  simp only [bumpFreeInodes, wp_bind, wp_getIom, wp_setIom, wp_lift]
  refine ⟨fun hn => hu ?_,fun mem hmem => ⟨fun hn => hu ?_,fun disk hdisk => h _ ?_ ?_⟩⟩
  · rintro ⟨hc,_⟩
    rw [hn] at hc
    cases hc
  · rintro ⟨_,hc⟩
    rw [hn] at hc
    cases hc
  · exact ⟨Option.isSome_iff_exists.mpr ⟨mem,hmem⟩,Option.isSome_iff_exists.mpr ⟨disk,hdisk⟩⟩
  · rw [(addSigned_eq_some hmem).1, (addSigned_eq_some hdisk).1]
    rfl

theorem wp_bumpFreeBlocks_at {u : Prop} {d : ℤ} {Q : Unit → Sys → Prop} (hu : ¬s.iom.BlockRoom d → u)
    (h : s.iom.BlockRoom d → Q () { s with iom := s.iom.addFreeBlocks d }) : wp u (bumpFreeBlocks d) Q e s := by
  simp only [bumpFreeBlocks, wp_bind, wp_getIom, wp_setIom, wp_lift]
  refine ⟨fun hn => hu ?_,fun mem hmem => ⟨fun hn => hu ?_,fun disk hdisk => ?_⟩⟩
  · rintro ⟨hc,_⟩
    rw [hn] at hc
    cases hc
  · rintro ⟨_,hc⟩
    rw [hn] at hc
    cases hc
  · rw [(addSigned_eq_some hmem).1, (addSigned_eq_some hdisk).1]
    exact h ⟨Option.isSome_iff_exists.mpr ⟨mem,hmem⟩,Option.isSome_iff_exists.mpr ⟨disk,hdisk⟩⟩

theorem wp_bumpFreeBlocks {u : Prop} {d : ℤ} {Q : Unit → Sys → Prop} (hu : ¬s.iom.BlockRoom d → u)
    (h : ∀ s', s.iom.BlockRoom d → s'.iom = s.iom.addFreeBlocks d → Q () s') : wp u (bumpFreeBlocks d) Q e s :=
  wp_bumpFreeBlocks_at hu (fun hroom => h _ hroom rfl)

section Room
variable {m m' : Iom} {d c : ℤ} {k : ℕ}

theorem Iom.superBlock_setSuperBlock (v : SuperBlock) : (m.setSuperBlock v).superBlock = v := superBlockCodec.get_put_self

theorem inodeRoom_congr (hmem : m'.sbi.sbFreeInodes = m.sbi.sbFreeInodes)
    (hdisk : m'.superBlock.sbFreeInodes = m.superBlock.sbFreeInodes) : m'.InodeRoom d ↔ m.InodeRoom d := by
  unfold Iom.InodeRoom
  rw [hmem, hdisk]

theorem blockRoom_congr (hmem : m'.sbi.sbFreeBlocks = m.sbi.sbFreeBlocks)
    (hdisk : m'.superBlock.sbFreeBlocks = m.superBlock.sbFreeBlocks) : m'.BlockRoom d ↔ m.BlockRoom d := by
  unfold Iom.BlockRoom
  rw [hmem, hdisk]

/-- Two changes in a row. -/
theorem inodeRoom_addFreeInodes (h : m.InodeRoom d) : (m.addFreeInodes d).InodeRoom c ↔ m.InodeRoom (d + c) := by
  obtain ⟨hlo,hhi⟩ := addSigned_isSome.mp h.2
  have hdisk : (m.addFreeInodes d).superBlock.sbFreeInodes.toInt = m.superBlock.sbFreeInodes.toInt + d := by
    rw [Iom.addFreeInodes, Iom.superBlock_setSuperBlock]
    exact Int32.toInt_ofInt_of_le hlo hhi
  unfold Iom.InodeRoom
  rw [hdisk]
  simp only [addSigned_isSome, Iom.addFreeInodes, Iom.setSuperBlock, Int.add_assoc]

theorem blockRoom_addFreeBlocks (h : m.BlockRoom d) : (m.addFreeBlocks d).BlockRoom c ↔ m.BlockRoom (d + c) := by
  obtain ⟨hlo,hhi⟩ := addSigned_isSome.mp h.2
  have hdisk : (m.addFreeBlocks d).superBlock.sbFreeBlocks.toInt = m.superBlock.sbFreeBlocks.toInt + d := by
    rw [Iom.addFreeBlocks, Iom.superBlock_setSuperBlock]
    exact Int64.toInt_ofInt_of_le hlo hhi
  unfold Iom.BlockRoom
  rw [hdisk]
  simp only [addSigned_isSome, Iom.addFreeBlocks, Iom.setSuperBlock, Int.add_assoc]

theorem inodeRoom_addFreeBlocks : (m.addFreeBlocks c).InodeRoom d ↔ m.InodeRoom d :=
  inodeRoom_congr rfl (by rw [Iom.addFreeBlocks, Iom.superBlock_setSuperBlock])

theorem blockRoom_addFreeInodes : (m.addFreeInodes c).BlockRoom d ↔ m.BlockRoom d :=
  blockRoom_congr rfl (by rw [Iom.addFreeInodes, Iom.superBlock_setSuperBlock])

theorem inodeRoom_setInoHint : (m.setInoHint k).InodeRoom d ↔ m.InodeRoom d :=
  inodeRoom_congr rfl ((congrArg SuperBlock.sbFreeInodes superBlockCodec.get_put_self).trans rfl)

theorem blockRoom_setInoHint : (m.setInoHint k).BlockRoom d ↔ m.BlockRoom d :=
  blockRoom_congr rfl ((congrArg SuperBlock.sbFreeBlocks superBlockCodec.get_put_self).trans rfl)

theorem inodeRoom_setBlknr : (m.setBlknr k).InodeRoom d ↔ m.InodeRoom d :=
  inodeRoom_congr rfl (by rw [Iom.setBlknr, Iom.superBlock_setSuperBlock])

theorem blockRoom_setBlknr : (m.setBlknr k).BlockRoom d ↔ m.BlockRoom d :=
  blockRoom_congr rfl (by rw [Iom.setBlknr, Iom.superBlock_setSuperBlock])

theorem inodeRoom_takeInode (h : m.InodeRoom (-1)) : (m.takeInode k).InodeRoom d ↔ m.InodeRoom (-1 + d) := by
  have hhint : ((m.setIbmap (setBit m.ibmap k)).setInoHint (k + 1)).InodeRoom (-1) := inodeRoom_setInoHint.mpr h
  exact (inodeRoom_addFreeInodes hhint).trans inodeRoom_setInoHint

theorem blockRoom_takeInode : (m.takeInode k).BlockRoom d ↔ m.BlockRoom d :=
  blockRoom_addFreeInodes.trans blockRoom_setInoHint

theorem blockRoom_takeBlock (h : m.BlockRoom (-1)) : (m.takeBlock k).BlockRoom d ↔ m.BlockRoom (-1 + d) :=
  blockRoom_addFreeBlocks (m := m.setDbmap (setBit m.dbmap k)) h

theorem inodeRoom_takeBlock : (m.takeBlock k).InodeRoom d ↔ m.InodeRoom d := inodeRoom_addFreeBlocks

theorem blockRoom_freeInode : (m.freeInode k).BlockRoom d ↔ m.BlockRoom d := blockRoom_addFreeInodes

theorem inodeRoom_freeBlock : (m.freeBlock k).InodeRoom d ↔ m.InodeRoom d := inodeRoom_addFreeBlocks

end Room

/-! ## Allocation -/

/-- The scan for a clear inode bit ends on one in range, and the counters can drop. -/
structure Iom.InodeReady (m : Iom) : Prop where
  scan : ∃ k, bitScan m.inodeNum m.clusterSize m.ibmap m.inodeNum m.sbi.lastAllocatedIno = some (true,k) ∧ k < m.inodeNum
  room : m.InodeRoom (-1)

theorem wp_allocNewInode {u : Prop} {Q : Option Inode → Sys → Prop} (hm : s.iom.Mounted)
    (hu : ¬(e.MallocOk ∧ s.iom.InodeReady) → u)
    (hfail : ∀ s', ¬s.iom.InodeReady → s'.iom.iomBufIbmap = none → Q none s')
    (hok : ∀ s' k, s.iom.InodeReady → s'.iom = s.iom.takeInode k → k < s.iom.inodeNum → s.iom.ibit k = false →
      Q (some { Inode.zero with iIno := UInt32.ofNat k, iVersion := 1 }) s') :
    wp u allocNewInode Q e s := by
  have hnum : s.iom.sbi.ibitmapSize / lab4InodeEntrySize = s.iom.inodeNum := by rw [hm.ibitmapSize]; rfl
  simp only [allocNewInode, scanAllocateIbmap, wp_bind, wp_getIom, hm.ibmap_eq, wp_lift, hnum]
  refine ⟨fun hn => hu (fun hr => ?_),?_⟩
  · obtain ⟨k,hk,_⟩ := hr.2.scan
    cases hk.symm.trans hn
  rintro ⟨found,k⟩ hscan
  rw [wp_ite]
  refine ⟨fun hk => ?_,fun hk => ?_⟩
  · obtain ⟨rfl,hk⟩ := hk
    simp only [wp_bind, wp_setIom, wp_pure]
    rw [if_neg (by decide), wp_bind]
    apply wp_malloc_cases
    intro b s1 h1 hb
    cases b with
    | false =>
      simp only [Bool.not_false, ↓reduceIte, wp_undefined]
      exact hu (fun hr => hb rfl hr.1)
    | true =>
      simp only [Bool.not_true, Bool.false_eq_true, ↓reduceIte, wp_bind, wp_modifyIom]
      refine wp_bumpFreeInodes (fun hn => hu (fun hr => hn ?_)) (fun s2 hroom h2 => ?_)
      · have hroom : (s1.iom.setInoHint (k + 1)).InodeRoom (-1) := by
          rw [h1]
          exact inodeRoom_setInoHint.mpr hr.2.room
        exact hroom
      have hroom1 : (s1.iom.setInoHint (k + 1)).InodeRoom (-1) := hroom
      rw [h1] at hroom1
      rw [wp_pure]
      refine hok s2 k ⟨⟨k,hscan,hk⟩,inodeRoom_setInoHint.mp hroom1⟩ ?_ hk (bitScan_found hscan)
      rw [h2, h1, lab4SetBit_snd]
      rfl
  · simp only [wp_bind, wp_setIom, wp_pure, ↓reduceIte]
    refine hfail _ (fun hr => hk ?_) rfl
    obtain ⟨l,hl,hlt⟩ := hr.scan
    cases hscan.symm.trans hl
    exact ⟨rfl,hlt⟩

/-- The scan for a clear block bit ends on one in range, and the counters can drop. -/
structure Iom.BlockReady (m : Iom) : Prop where
  scan : ∃ b, bitScan m.maxBlock m.clusterSize m.dbmap m.maxBlock m.sbi.lastAllocatedBlknr = some (true,b) ∧ b < m.maxBlock
  room : m.BlockRoom (-1)

theorem wp_allocBlockInbmap_any {u : Prop} {Q : ℤ × ℕ → Sys → Prop} (hm : s.iom.Mounted) (hu : ¬s.iom.BlockReady → u)
    (hfail : ∀ s' b, ¬s.iom.BlockReady → s'.iom.iomBufDbmap = none → Q (lab4Error,b) s')
    (hok : ∀ s' b, s.iom.BlockRoom (-1) → s'.iom = s.iom.takeBlock b → b < s.iom.maxBlock → s.iom.dbit b = false →
      (s.iom.sbi.lastAllocatedBlknr < s.iom.maxBlock →
        ∀ q, s.iom.sbi.lastAllocatedBlknr ≤ q → q < b → s.iom.dbit q = true) → Q (lab4Success,b) s') :
    wp u allocBlockInbmap Q e s := by
  simp only [allocBlockInbmap, scanAllocateDbmap, wp_bind, wp_getIom, hm.dbmap_eq, wp_lift]
  refine ⟨fun hn => hu (fun hr => ?_),?_⟩
  · obtain ⟨b,hb,_⟩ := hr.scan
    cases hb.symm.trans hn
  rintro ⟨found,b⟩ hscan
  rw [wp_ite]
  refine ⟨fun hb => ?_,fun hb => ?_⟩
  · obtain ⟨rfl,hb⟩ := hb
    simp only [wp_bind, wp_setIom, wp_pure, decFreeBlocks]
    refine wp_bumpFreeBlocks (fun hn => hu (fun hr => hn hr.room)) (fun s1 hroom h1 => ?_)
    rw [if_neg (by decide), wp_pure]
    refine hok s1 b hroom ?_ hb (bitScan_found hscan) (fun hl => bitScan_first hl hscan)
    rw [h1, lab4SetBit_snd]
    rfl
  · simp only [wp_bind, wp_setIom, wp_pure, ↓reduceIte]
    refine hfail _ b (fun hr => hb ?_) rfl
    obtain ⟨l,hl,hlt⟩ := hr.scan
    cases hscan.symm.trans hl
    exact ⟨rfl,hlt⟩

theorem wp_allocBlockInbmap {Q : ℤ × ℕ → Sys → Prop} (hm : s.iom.Mounted)
    (hfail : ∀ s' b, s'.iom.iomBufDbmap = none → Q (lab4Error,b) s')
    (hok : ∀ s' b, s.iom.BlockRoom (-1) → s'.iom = s.iom.takeBlock b → b < s.iom.maxBlock → s.iom.dbit b = false →
      (s.iom.sbi.lastAllocatedBlknr < s.iom.maxBlock →
        ∀ q, s.iom.sbi.lastAllocatedBlknr ≤ q → q < b → s.iom.dbit q = true) → Q (lab4Success,b) s') :
    wp True allocBlockInbmap Q e s :=
  wp_allocBlockInbmap_any hm (fun _ => trivial) (fun s' b _ => hfail s' b) hok

theorem wp_restoreIbmap_none {u : Prop} {Q : ℤ → Sys → Prop} (hu : u) (h : s.iom.iomBufIbmap = none) :
    wp u restoreIbmap Q e s := by
  simp only [restoreIbmap, reloadCluster, wp_bind, wp_getIom, h, wp_undefined]
  exact hu

theorem wp_restoreDbmap_none {u : Prop} {Q : ℤ → Sys → Prop} (hu : u) (h : s.iom.iomBufDbmap = none) :
    wp u restoreDbmap Q e s := by
  simp only [restoreDbmap, reloadCluster, wp_bind, wp_getIom, h, wp_undefined]
  exact hu

/-! ## Release -/

theorem wp_deleteBlockInbmap {u : Prop} {v : Inode} {b : ℕ} {Q : Unit → Sys → Prop} (hm : s.iom.Mounted)
    (hb : (v.iBlocks 0).toNat = s.iom.blockAddr b) (hlt : s.iom.blockAddr b < 2^31)
    (hu : ¬(b < 8 * s.iom.clusterSize ∧ s.iom.BlockRoom 1) → u)
    (h : ∀ s', s.iom.BlockRoom 1 → s'.iom = s.iom.freeBlock b → Q () s') : wp u (deleteBlockInbmap v) Q e s := by
  have hpos := hm.cluster_le
  have hbl : b * 1 ≤ b * s.iom.clusterSize := Nat.mul_le_mul_left b (by omega)
  have hlt' : b < 2^31 := by
    unfold Iom.blockAddr at hlt
    omega
  have hinbmap : s.iom.blocknrInbmap v = (b : ℕ) := hm.blocknrInbmap_eq hlt' hb
  simp only [deleteBlockInbmap, scanDeleteDbmap, wp_bind, wp_getIom, hm.dbmap_eq, hinbmap,
    toU32_natCast (show b < 2^32 by omega)]
  rw [wp_ite, wp_undefined]
  refine ⟨fun hbig => hu (fun hc => ?_),fun _ => ?_⟩
  · rw [Nat.shiftRight_eq_div_pow] at hbig
    omega
  rw [wp_setIom]
  refine wp_bumpFreeBlocks (fun hn => hu (fun hc => hn hc.2)) (fun s1 hroom h1 => ?_)
  exact h s1 hroom (by rw [h1, lab4ClearBit_snd]; rfl)

theorem delInoPos_le {m : Iom} {k : ℕ} (hm : m.Mounted) (hk : k < m.inodeNum) :
    ¬toU32 (k * lab4InodeEntrySize) > m.sbi.clusterSize := by
  have hle := hm.cluster_le
  have hmul := hm.inodeNum_mul
  have hpos : k * lab4InodeEntrySize ≤ m.clusterSize := hmul ▸ Nat.mul_le_mul_right lab4InodeEntrySize hk.le
  have hcast : ((k : ℤ) * (lab4InodeEntrySize : ℕ)) = (k * lab4InodeEntrySize : ℕ) := (Nat.cast_mul _ _).symm
  rw [hcast, toU32_natCast (by omega), hm.sbiCluster]
  omega

theorem wp_deleteInode {u : Prop} {v : Inode} {Q : ℤ → Sys → Prop} (hm : s.iom.Mounted)
    (hk : v.iIno.toNat < s.iom.inodeNum) (hu : ¬s.iom.InodeRoom 1 → u)
    (h : ∀ s', s.iom.InodeRoom 1 → s'.iom = s.iom.freeInode v.iIno.toNat → Q lab4Success s') :
    wp u (deleteInode v) Q e s := by
  simp only [deleteInode, scanDeleteIbmap, wp_bind, wp_getIom, hm.ibmap_eq]
  rw [wp_ite, wp_undefined]
  refine ⟨fun hbig => ?_,fun _ => ?_⟩
  · have := hm.inodeNum_mul
    rw [Nat.shiftRight_eq_div_pow] at hbig
    unfold lab4InodeEntrySize at this
    omega
  have hpos := delInoPos_le (hm.setIbmap (b := (lab4ClearBit v.iIno.toNat s.iom.ibmap).2)) hk
  rw [wp_setIom]
  unfold deleteInodeFromItble
  rw [wp_bind, wp_getIom]
  rw [wp_ite]
  refine ⟨fun hn => absurd hn hpos,fun _ => ?_⟩
  rw [wp_ite]
  refine ⟨fun hn => absurd hn (Nat.not_le.mpr hk),fun _ => ?_⟩
  simp only [wp_bind, wp_setIom, wp_pure]
  rw [if_neg (by decide), wp_bind]
  refine wp_bumpFreeInodes hu (fun s1 hroom h1 => ?_)
  rw [wp_pure]
  exact h s1 hroom (by rw [h1, lab4ClearBit_snd]; rfl)

end SimpleFS
