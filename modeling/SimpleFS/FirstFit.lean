import SimpleFS.Consistency

/-! # Block allocation is cyclic first fit

From a hint in range the scan visits every block number once, in cyclic order, so it finds the first clear
bit there is. Without one the error path frees the bitmap buffer.
-/
namespace SimpleFS
open Bytes Machine Prog

/-- The first clear bit in the order `hint`, `hint + 1`, …, `max - 1`, 0, …, `hint - 1`. -/
def FirstClear (max hint : ℕ) (bits : ℕ → Bool) (b : ℕ) : Prop :=
  ∃ i < max, b = (hint + i) % max ∧ bits b = false ∧ ∀ j < i, bits ((hint + j) % max) = true

theorem FirstClear.lt {max hint b : ℕ} {bits : ℕ → Bool} (h : FirstClear max hint bits b) : b < max ∧ bits b = false := by
  obtain ⟨i,hi,rfl,hclear,_⟩ := h
  exact ⟨Nat.mod_lt _ (by omega),hclear⟩

variable {e : Env} {s : Sys} {m : Iom} {b : ℕ} {u : Prop}

/-! ## The scan -/

/-- What `scan_allocate_dbmap` finds for the hint kept in memory. -/
def Iom.blockScan (m : Iom) : Option (Bool × ℕ) :=
  bitScan m.maxBlock m.clusterSize m.dbmap m.maxBlock m.sbi.lastAllocatedBlknr

/-- The bitmap is there, the blocks have their bits in it and the hint is one of them. -/
structure Iom.BlockScannable (m : Iom) : Prop where
  dbmapSome : m.iomBufDbmap.isSome = true
  two_le : 2 ≤ m.maxBlock
  fits : m.maxBlock ≤ 8 * m.clusterSize
  hint : m.sbi.lastAllocatedBlknr < m.maxBlock

namespace Iom.BlockScannable
variable (h : m.BlockScannable)
include h

theorem dbmap_eq : m.iomBufDbmap = some m.dbmap := by
  obtain ⟨x,hx⟩ := Option.isSome_iff_exists.mp h.dbmapSome
  rw [Iom.dbmap, hx, Option.getD_some]

theorem scanPos_lt (i : ℕ) : scanPos m.maxBlock m.sbi.lastAllocatedBlknr i < m.maxBlock := by
  rw [scanPos_of_lt h.hint]
  exact Nat.mod_lt _ (by have := h.two_le; omega)

/-- The scan stops at the first clear bit, and gives up only if there is none. -/
theorem blockScan_cases :
    (∃ b, m.blockScan = some (true,b) ∧ FirstClear m.maxBlock m.sbi.lastAllocatedBlknr m.dbit b) ∨
    ∃ b, m.blockScan = some (false,b) ∧ ∀ q < m.maxBlock, m.dbit q = true := by
  have hcap : ∀ j, scanPos m.maxBlock m.sbi.lastAllocatedBlknr j < 8 * m.clusterSize := fun j =>
    (h.scanPos_lt j).trans_le h.fits
  by_cases hex : ∃ i, i < m.maxBlock ∧ m.dbit (scanPos m.maxBlock m.sbi.lastAllocatedBlknr i) = false
  · obtain ⟨hi,hclear⟩ := Nat.find_spec hex
    have hset : ∀ j < Nat.find hex, m.dbit (scanPos m.maxBlock m.sbi.lastAllocatedBlknr j) = true := fun j hj => by
      have := Nat.find_min hex hj
      rw [not_and, Bool.not_eq_false] at this
      exact this (by omega)
    refine .inl ⟨_,bitScan_eq_found (fun j _ => hcap j) hi hset hclear,_,hi,scanPos_of_lt h.hint _,hclear,fun j hj => ?_⟩
    rw [← scanPos_of_lt h.hint]
    exact hset j hj
  · have hset : ∀ i < m.maxBlock, m.dbit (scanPos m.maxBlock m.sbi.lastAllocatedBlknr i) = true := fun i hi => by
      rw [← Bool.not_eq_false]
      exact fun hn => hex ⟨i,hi,hn⟩
    refine .inr ⟨_,bitScan_eq_not_found (fun j _ => hcap j) hset,fun q hq => ?_⟩
    obtain ⟨i,hi,rfl⟩ := scanPos_surjective h.hint hq
    exact hset i hi

end Iom.BlockScannable

/-! ## The allocation -/

/-- Every way `scan_allocate_dbmap` can go. -/
theorem wp_scanAllocateDbmap {Q : ℤ × ℕ → Sys → Prop} (h : s.iom.BlockScannable)
    (hfull : ∀ s' b, (∀ q < s.iom.maxBlock, s.iom.dbit q = true) → s'.iom = { s.iom with iomBufDbmap := none } →
      Q (lab4Error,b) s')
    (hu : (∃ q < s.iom.maxBlock, s.iom.dbit q = false) → ¬s.iom.BlockRoom (-1) → u)
    (hok : ∀ s' b, FirstClear s.iom.maxBlock s.iom.sbi.lastAllocatedBlknr s.iom.dbit b → s.iom.BlockRoom (-1) →
      s'.iom = s.iom.takeBlock b → Q (lab4Success,b) s') :
    wp u scanAllocateDbmap Q e s := by
  simp only [scanAllocateDbmap, wp_bind, wp_getIom, h.dbmap_eq, wp_lift]
  change (s.iom.blockScan = none → u) ∧ ∀ a, s.iom.blockScan = some a → _
  rcases h.blockScan_cases with ⟨b,hscan,hfirst⟩ | ⟨b,hscan,hset⟩
  · refine ⟨fun hn => (by cases hn.symm.trans hscan),?_⟩
    rintro a ha
    cases hscan.symm.trans ha
    obtain ⟨hlt,hclear⟩ := hfirst.lt
    rw [if_pos ⟨rfl,hlt⟩]
    simp only [wp_bind, wp_setIom, wp_pure, decFreeBlocks]
    refine wp_bumpFreeBlocks (fun hn => hu ⟨b,hlt,hclear⟩ hn) (fun s1 hroom h1 => ?_)
    refine hok s1 b hfirst hroom ?_
    rw [h1, lab4SetBit_snd]
    rfl
  · refine ⟨fun hn => (by cases hn.symm.trans hscan),?_⟩
    rintro a ha
    cases hscan.symm.trans ha
    rw [if_neg (fun hf => Bool.noConfusion hf.1), wp_bind, wp_setIom, wp_pure]
    exact hfull _ b hset rfl

/-- The counters of free blocks, in memory and in the super block. -/
def Iom.freeBlocks (m : Iom) : ℤ × ℤ := (m.sbi.sbFreeBlocks,m.superBlock.sbFreeBlocks.toInt)

theorem freeBlocks_addFreeBlocks {d : ℤ} (h : m.BlockRoom d) :
    (m.addFreeBlocks d).freeBlocks = (m.freeBlocks.1 + d,m.freeBlocks.2 + d) := by
  obtain ⟨hlo,hhi⟩ := addSigned_isSome.mp h.2
  have hdisk : (m.addFreeBlocks d).superBlock.sbFreeBlocks.toInt = m.superBlock.sbFreeBlocks.toInt + d := by
    rw [Iom.addFreeBlocks, Iom.superBlock_setSuperBlock]
    exact Int64.toInt_ofInt_of_le hlo hhi
  unfold Iom.freeBlocks
  rw [hdisk]
  simp only [Iom.addFreeBlocks, Iom.setSuperBlock]

theorem freeBlocks_takeBlock (h : m.BlockRoom (-1)) :
    (m.takeBlock b).freeBlocks = (m.freeBlocks.1 - 1,m.freeBlocks.2 - 1) :=
  freeBlocks_addFreeBlocks (m := m.setDbmap (setBit m.dbmap b)) h

/-- Cyclic first fit: the allocation succeeds exactly when a block is free, takes the first free one and
nothing else, counts it, and changes nothing when it fails. -/
structure BlockAllocationFirstFit (e : Env) (s : Sys) : Prop where
  complete : (∃ b s', scanAllocateDbmap e s = some ((lab4Success,b),s')) ↔ ∃ q < s.iom.maxBlock, s.iom.dbit q = false
  success : ∀ b s', scanAllocateDbmap e s = some ((lab4Success,b),s') →
    FirstClear s.iom.maxBlock s.iom.sbi.lastAllocatedBlknr s.iom.dbit b ∧
    (∀ q, s'.iom.dbit q = if q = b then true else s.iom.dbit q) ∧
    s'.iom.freeBlocks = (s.iom.freeBlocks.1 - 1,s.iom.freeBlocks.2 - 1)
  failure : ∀ r b s', scanAllocateDbmap e s = some ((r,b),s') → r ≠ lab4Success →
    s'.iom.iomBufDbmap = s.iom.iomBufDbmap ∧ s'.iom.freeBlocks = s.iom.freeBlocks

section Contract
variable (h : s.iom.BlockScannable)
include h

/-- With every block in use the bitmap buffer is lost. -/
theorem scanAllocateDbmap_full (hfull : ∀ q < s.iom.maxBlock, s.iom.dbit q = true) :
    ∃ b s', scanAllocateDbmap e s = some ((lab4Error,b),s') ∧ s'.iom.iomBufDbmap = none := by
  have hclear : ∀ q < s.iom.maxBlock, s.iom.dbit q ≠ false := fun q hq hn => by cases hn.symm.trans (hfull q hq)
  have hrun : wp False scanAllocateDbmap (fun p s' => p.1 = lab4Error ∧ s'.iom.iomBufDbmap = none) e s :=
    wp_scanAllocateDbmap h (fun _ _ _ hs' => ⟨rfl,by rw [hs']⟩) (fun ⟨q,hq,hn⟩ _ => hclear q hq hn)
      (fun _ b hb _ _ => absurd hb.lt.2 (hclear b hb.lt.1))
  obtain ⟨⟨r,b⟩,s',hr,hres,hnone⟩ := wp_false.mp hrun
  obtain rfl : r = lab4Error := hres
  exact ⟨b,s',hr,hnone⟩

theorem not_firstFit_of_full (hfull : ∀ q < s.iom.maxBlock, s.iom.dbit q = true) : ¬BlockAllocationFirstFit e s := by
  intro hc
  obtain ⟨b,s',hr,hnone⟩ := scanAllocateDbmap_full (e := e) h hfull
  have hsome := (hc.failure lab4Error b s' hr (by decide)).1
  rw [hnone, h.dbmap_eq] at hsome
  cases hsome

/-- A free block and room in the counters. -/
theorem firstFit_of_room (hex : ∃ q < s.iom.maxBlock, s.iom.dbit q = false) (hroom : s.iom.BlockRoom (-1)) :
    BlockAllocationFirstFit e s := by
  have hrun : wp False scanAllocateDbmap (fun p s' => ∃ b, p = (lab4Success,b) ∧
      FirstClear s.iom.maxBlock s.iom.sbi.lastAllocatedBlknr s.iom.dbit b ∧ s'.iom = s.iom.takeBlock b) e s :=
    wp_scanAllocateDbmap h (fun _ _ hfull _ => hex.elim (fun q hq => by cases (hfull q hq.1).symm.trans hq.2))
      (fun _ hn => hn hroom) (fun _ b hb _ hs' => ⟨b,rfl,hb,hs'⟩)
  obtain ⟨p,s1,hr,b,rfl,hfirst,hs1⟩ := wp_false.mp hrun
  refine ⟨⟨fun _ => hex,fun _ => ⟨b,s1,hr⟩⟩,fun b' s' hb' => ?_,fun r b' s' hb' hne => ?_⟩
  · cases hr.symm.trans hb'
    rw [hs1]
    refine ⟨hfirst,fun q => ?_,freeBlocks_takeBlock hroom⟩
    have hbit : (s.iom.takeBlock b).dbit q = bit (setBit s.iom.dbmap b) q := rfl
    rw [hbit, bit_setBit]
    by_cases hq : q = b <;> simp [hq, Iom.dbit]
  · cases hr.symm.trans hb'
    exact absurd rfl hne

/-- What the allocation needs to be first fit. -/
theorem firstFit_iff :
    BlockAllocationFirstFit e s ↔ (∃ q < s.iom.maxBlock, s.iom.dbit q = false) ∧ s.iom.BlockRoom (-1) := by
  refine ⟨fun hc => ?_,fun hc => firstFit_of_room h hc.1 hc.2⟩
  have hex : ∃ q < s.iom.maxBlock, s.iom.dbit q = false := by
    by_contra hn
    refine not_firstFit_of_full h (fun q hq => ?_) hc
    rw [← Bool.not_eq_false]
    exact fun hf => hn ⟨q,hq,hf⟩
  refine ⟨hex,?_⟩
  by_contra hn
  obtain ⟨b,s',hr⟩ := hc.complete.mpr hex
  have hrun : wp True scanAllocateDbmap (fun _ _ => False) e s :=
    wp_scanAllocateDbmap h (fun _ _ hfull _ => hex.elim (fun q hq => by cases (hfull q hq.1).symm.trans hq.2))
      (fun _ _ => trivial) (fun _ _ _ hroom _ => hn hroom)
  exact hrun.elim hr

end Contract

end SimpleFS
