import SimpleFS.Consistency

/-! # When inode allocation succeeds

`alloc_new_inode` leaves the number behind the one it handed out as the hint, so the hint can be the number
of inodes itself. The scan tests that bit first, which no allocation ever sets, and a failing scan frees
the bitmap buffer.
-/
namespace SimpleFS
open Bytes Machine Prog

variable {e : Env} {s : Sys} {u : Prop} {m : Iom}

/-! ## The scan -/

/-- The scan reaches a clear bit in range: it starts in range, or on a set bit behind it and does not need
bit 0. -/
def Iom.ScanReaches (m : Iom) : Prop :=
  (m.sbi.lastAllocatedIno < m.inodeNum ∧ ∃ k < m.inodeNum, m.ibit k = false) ∨
    m.sbi.lastAllocatedIno = m.inodeNum ∧ m.ibit m.inodeNum = true ∧ ∃ k, 1 ≤ k ∧ k < m.inodeNum ∧ m.ibit k = false

/-- What `scan_allocate_ibmap` finds for the hint kept in memory. -/
def Iom.inodeScan (m : Iom) : Option (Bool × ℕ) :=
  bitScan m.inodeNum m.clusterSize m.ibmap m.inodeNum m.sbi.lastAllocatedIno

section Scan
variable (hm : m.Mounted) (hhint : m.sbi.lastAllocatedIno ≤ m.inodeNum)
include hm hhint

theorem scanPos_le (i : ℕ) : scanPos m.inodeNum m.sbi.lastAllocatedIno i ≤ m.inodeNum := by
  have hn := hm.inodeNum_le
  cases i with
  | zero => exact hhint
  | succ i =>
    rw [scanPos_succ]
    exact (Nat.mod_lt _ (by omega)).le

theorem scanPos_in_buffer (i : ℕ) : scanPos m.inodeNum m.sbi.lastAllocatedIno i < 8 * m.clusterSize := by
  have hle := scanPos_le hm hhint i
  have hmul := hm.inodeNum_mul
  have hcs := hm.cluster_le
  unfold lab4InodeEntrySize at hmul
  omega

omit hm in
/-- A scan that stops at step `i` has a number in range exactly when the bits reach. -/
theorem scan_stops {i : ℕ} (hi : i < m.inodeNum)
    (hset : ∀ j < i, m.ibit (scanPos m.inodeNum m.sbi.lastAllocatedIno j) = true)
    (hclear : m.ibit (scanPos m.inodeNum m.sbi.lastAllocatedIno i) = false) :
    scanPos m.inodeNum m.sbi.lastAllocatedIno i < m.inodeNum ↔ m.ScanReaches := by
  rcases Nat.lt_or_eq_of_le hhint with hlt | heq
  · have hpos : scanPos m.inodeNum m.sbi.lastAllocatedIno i < m.inodeNum := by
      rw [scanPos_of_lt hlt]
      exact Nat.mod_lt _ (by omega)
    exact ⟨fun _ => .inl ⟨hlt,_,hpos,hclear⟩,fun _ => hpos⟩
  · rw [heq] at hset hclear ⊢
    cases i with
    | zero =>
      constructor
      · intro hlt
        exact absurd hlt (Nat.lt_irrefl _)
      · rintro (⟨hlt,_⟩ | ⟨_,hbit,_⟩)
        · omega
        · cases hbit.symm.trans hclear
    | succ i =>
      rw [scanPos_max hi] at hclear ⊢
      exact ⟨fun _ => .inr ⟨heq,hset 0 (Nat.succ_pos i),_,by omega,hi,hclear⟩,fun _ => hi⟩

omit hm hhint in
/-- A scan that finds every visited bit set has none to reach. -/
theorem scan_exhausted (hset : ∀ i < m.inodeNum, m.ibit (scanPos m.inodeNum m.sbi.lastAllocatedIno i) = true) :
    ¬m.ScanReaches := by
  rintro (⟨hlt,k,hk,hclear⟩ | ⟨heq,_,k,h1,hk,hclear⟩)
  · obtain ⟨i,hi,rfl⟩ := scanPos_surjective hlt hk
    cases (hset i hi).symm.trans hclear
  · obtain ⟨k,rfl⟩ : ∃ l, k = l + 1 := ⟨k - 1,by omega⟩
    have hk' := hset (k + 1) hk
    rw [heq, scanPos_max hk] at hk'
    cases hk'.symm.trans hclear

theorem inodeScan_cases : (∃ k, m.inodeScan = some (true,k) ∧ k < m.inodeNum ∧ m.ScanReaches) ∨
    ∃ found k, m.inodeScan = some (found,k) ∧ ¬(found = true ∧ k < m.inodeNum) ∧ ¬m.ScanReaches := by
  by_cases hex : ∃ i, i < m.inodeNum ∧ m.ibit (scanPos m.inodeNum m.sbi.lastAllocatedIno i) = false
  · -- the first clear bit on the way
    obtain ⟨hi,hclear⟩ := Nat.find_spec hex
    have hset : ∀ j < Nat.find hex, m.ibit (scanPos m.inodeNum m.sbi.lastAllocatedIno j) = true := fun j hj => by
      have := Nat.find_min hex hj
      rw [not_and, Bool.not_eq_false] at this
      exact this (by omega)
    have hscan : m.inodeScan = some (true,_) :=
      bitScan_eq_found (fun j _ => scanPos_in_buffer hm hhint j) hi hset hclear
    have hiff := scan_stops hhint hi hset hclear
    by_cases hreach : m.ScanReaches
    · exact .inl ⟨_,hscan,hiff.mpr hreach,hreach⟩
    · exact .inr ⟨_,_,hscan,fun h => hreach (hiff.mp h.2),hreach⟩
  · have hset : ∀ i < m.inodeNum, m.ibit (scanPos m.inodeNum m.sbi.lastAllocatedIno i) = true := fun i hi => by
      rw [← Bool.not_eq_false]
      exact fun hn => hex ⟨i,hi,hn⟩
    have hscan : m.inodeScan = some (false,_) :=
      bitScan_eq_not_found (fun j _ => scanPos_in_buffer hm hhint j) hset
    exact .inr ⟨_,_,hscan,fun h => Bool.noConfusion h.1,scan_exhausted hset⟩

end Scan

/-! ## The allocation -/

/-- Both signed counters of free inodes can be decremented. -/
def Iom.InodeCounters (m : Iom) : Prop :=
  (addSigned 32 m.sbi.sbFreeInodes (-1)).isSome ∧ (addSigned 32 m.superBlock.sbFreeInodes.toInt (-1)).isSome

theorem inodeCounters_hint {b : Mem} {k : ℕ} : ((m.setIbmap b).setInoHint k).InodeCounters ↔ m.InodeCounters := by
  have hsb : ((m.setIbmap b).setInoHint k).superBlock.sbFreeInodes = m.superBlock.sbFreeInodes :=
    (congrArg SuperBlock.sbFreeInodes superBlockCodec.get_put_self).trans rfl
  unfold Iom.InodeCounters
  rw [hsb]
  rfl

theorem wp_decFreeInodes {Q : Unit → Sys → Prop} (hu : ¬s.iom.InodeCounters → u)
    (h : ∀ s', s.iom.InodeCounters → s'.iom = s.iom.addFreeInodes (-1) → Q () s') : wp u decFreeInodes Q e s := by
  simp only [decFreeInodes, bumpFreeInodes, wp_bind, wp_getIom, wp_setIom, wp_lift]
  refine ⟨fun hn => hu ?_,fun mem hmem => ⟨fun hn => hu ?_,fun disk hdisk => h _ ?_ ?_⟩⟩
  · rintro ⟨hc,_⟩
    rw [hn] at hc
    cases hc
  · rintro ⟨_,hc⟩
    rw [hn] at hc
    cases hc
  · exact ⟨Option.isSome_iff_exists.mpr ⟨mem,hmem⟩,Option.isSome_iff_exists.mpr ⟨disk,hdisk⟩⟩
  · rw [(addSigned_eq_some hmem).1, (addSigned_eq_some hdisk).1]
    rfl

/-- Nothing stands in the way of an allocation but the bitmap: there is memory for the record and the
counters can be decremented. -/
def InodeAffordable (e : Env) (s : Sys) : Prop := e.mallocFails s.clock = false ∧ s.iom.InodeCounters

/-- Every way `alloc_new_inode` can go on a mounted volume. -/
theorem wp_allocNewInode_scan {Q : Option Inode → Sys → Prop} (hm : s.iom.Mounted)
    (hhint : s.iom.sbi.lastAllocatedIno ≤ s.iom.inodeNum)
    (hfail : ∀ s', ¬s.iom.ScanReaches → s'.iom.iomBufIbmap = none → Q none s')
    (hu : s.iom.ScanReaches → ¬InodeAffordable e s → u)
    (hok : ∀ s' k, InodeAffordable e s → s.iom.ScanReaches → s'.iom = s.iom.takeInode k → k < s.iom.inodeNum →
      s.iom.ibit k = false → Q (some { Inode.zero with iIno := UInt32.ofNat k, iVersion := 1 }) s') :
    wp u allocNewInode Q e s := by
  have hnum : s.iom.sbi.ibitmapSize / lab4InodeEntrySize = s.iom.inodeNum := by rw [hm.ibitmapSize]; rfl
  simp only [allocNewInode, scanAllocateIbmap, wp_bind, wp_getIom, hm.ibmap_eq, wp_lift, hnum]
  change (s.iom.inodeScan = none → u) ∧ ∀ a, s.iom.inodeScan = some a → _
  rcases inodeScan_cases hm hhint with ⟨k,hscan,hk,hreach⟩ | ⟨found,k,hscan,hout,hreach⟩
  · refine ⟨fun hn => (by cases hn.symm.trans hscan),?_⟩
    rintro a ha
    cases hscan.symm.trans ha
    rw [if_pos ⟨rfl,hk⟩, wp_bind, wp_setIom, wp_pure]
    dsimp only
    rw [if_neg (by decide), wp_bind, wp_malloc]
    dsimp only
    cases hrec : e.mallocFails s.clock with
    | true =>
      rw [Bool.not_true, Bool.not_false, if_pos rfl, wp_undefined]
      exact hu hreach (fun h => by cases h.1.symm.trans hrec)
    | false =>
      simp only [Bool.not_false, Bool.not_true, Bool.false_eq_true, ↓reduceIte, wp_bind, wp_modifyIom]
      have hcount := inodeCounters_hint (m := s.iom) (b := (lab4SetBit k s.iom.ibmap).2) (k := k + 1)
      refine wp_decFreeInodes (fun hn => hu hreach (fun h => hn (hcount.mpr h.2))) (fun s1 hc h1 => ?_)
      rw [wp_pure]
      refine hok s1 k ⟨hrec,hcount.mp hc⟩ hreach ?_ hk (bitScan_found hscan)
      rw [h1, lab4SetBit_snd]
      rfl
  · refine ⟨fun hn => (by cases hn.symm.trans hscan),?_⟩
    rintro a ha
    cases hscan.symm.trans ha
    rw [if_neg hout]
    simp only [wp_bind, wp_setIom, wp_pure, ↓reduceIte]
    exact hfail _ hreach rfl

/-- The contract of `alloc_new_inode`: it succeeds exactly when a bit in range is clear, flips that bit and
no other, and leaves the bitmap in place when it fails. -/
structure InodeAllocationComplete (e : Env) (s : Sys) : Prop where
  complete : (∃ v s', allocNewInode e s = some (some v,s')) ↔ ∃ k < s.iom.inodeNum, s.iom.ibit k = false
  success : ∀ v s', allocNewInode e s = some (some v,s') → v.iIno.toNat < s.iom.inodeNum ∧
    s.iom.ibit v.iIno.toNat = false ∧ s'.iom.iomBufIbmap.isSome ∧
    ∀ k, s'.iom.ibit k = if k = v.iIno.toNat then true else s.iom.ibit k
  failure : ∀ s', allocNewInode e s = some (none,s') → s'.iom.iomBufIbmap = s.iom.iomBufIbmap

theorem Iom.ScanReaches.clear (h : m.ScanReaches) : ∃ k < m.inodeNum, m.ibit k = false := by
  rcases h with ⟨_,k,hk,hclear⟩ | ⟨_,_,k,_,hk,hclear⟩
  · exact ⟨k,hk,hclear⟩
  · exact ⟨k,hk,hclear⟩

section Contract
variable (hm : s.iom.Mounted) (hhint : s.iom.sbi.lastAllocatedIno ≤ s.iom.inodeNum)
include hm hhint

/-- A scan that reaches nothing costs the bitmap buffer. -/
theorem not_complete_of_not_reaches (h : ¬s.iom.ScanReaches) : ¬InodeAllocationComplete e s := by
  intro hc
  have hrun : wp False allocNewInode (fun o s' => o = none ∧ s'.iom.iomBufIbmap = none) e s :=
    wp_allocNewInode_scan hm hhint (fun _ _ hs' => ⟨rfl,hs'⟩) (fun hr _ => h hr) (fun _ _ _ hr => absurd hr h)
  obtain ⟨o,s',hr,rfl,hnone⟩ := wp_false.mp hrun
  have hsome := hc.failure s' hr
  rw [hnone, hm.ibmap_eq] at hsome
  cases hsome

/-- What a successful allocation leaves. -/
theorem complete_of_affordable (h : s.iom.ScanReaches) (ha : InodeAffordable e s) : InodeAllocationComplete e s := by
  have hn := hm.inodeNum_le
  have hrun : wp False allocNewInode (fun o s' => ∃ k, o = some { Inode.zero with iIno := UInt32.ofNat k, iVersion := 1 } ∧
      s'.iom = s.iom.takeInode k ∧ k < s.iom.inodeNum ∧ s.iom.ibit k = false) e s :=
    wp_allocNewInode_scan hm hhint (fun _ hr => absurd h hr) (fun _ hn => hn ha)
      (fun _ k _ _ hs' hk hclear => ⟨k,rfl,hs',hk,hclear⟩)
  obtain ⟨o,s1,hr,k,rfl,hs1,hk,hclear⟩ := wp_false.mp hrun
  refine ⟨⟨fun _ => h.clear,fun _ => ⟨_,s1,hr⟩⟩,fun v s' hv => ?_,fun s' hs' => ?_⟩
  · cases hr.symm.trans hv
    have hino : (UInt32.ofNat k).toNat = k := UInt32.toNat_ofNat_of_lt' (by rw [UInt32.size]; omega)
    rw [hino, hs1]
    refine ⟨hk,hclear,rfl,fun l => ?_⟩
    have hbit : (s.iom.takeInode k).ibit l = bit (setBit s.iom.ibmap k) l := rfl
    rw [hbit, bit_setBit]
    by_cases hl : l = k
    · rw [if_pos hl, hl]
      simp
    · rw [if_neg hl]
      simp [hl, Iom.ibit]
  · cases hr.symm.trans hs'

/-- Inode allocation keeps its contract exactly when the scan reaches a clear bit and the record and the
counters allow the allocation. -/
theorem inode_allocation_complete_iff :
    InodeAllocationComplete e s ↔ s.iom.ScanReaches ∧ InodeAffordable e s := by
  refine ⟨fun hc => ?_,fun h => complete_of_affordable hm hhint h.1 h.2⟩
  have hreach : s.iom.ScanReaches := by
    by_contra h
    exact not_complete_of_not_reaches hm hhint h hc
  refine ⟨hreach,?_⟩
  by_contra hn
  obtain ⟨v,s',hr⟩ := hc.complete.mpr hreach.clear
  have hrun : wp True allocNewInode (fun _ _ => False) e s :=
    wp_allocNewInode_scan hm hhint (fun _ h => absurd hreach h) (fun _ _ => trivial) (fun _ _ ha => absurd ha hn)
  exact hrun.elim hr

end Contract

/-- A new volume: the allocator works as long as its hint is in range. -/
theorem inode_allocation_complete_blank : ∃ s0, formatAndMount quietEnv (blankDisk 80) = some (true,s0) ∧
    InodeAllocationComplete quietEnv s0 := by
  obtain ⟨s0,root,a,b,hrun,_,h0⟩ := blankDisk_fresh
  have hsec : IsSector (blankDisk 80).iom.dev.blksszget := .inl rfl
  have hm : s0.iom.Mounted := h0 ▸ fresh_mounted hsec
  have hn := hm.inodeNum_le
  have hcomputed : (formatAndMount quietEnv (blankDisk 80)).map (fun p => (p.2.iom.sbi.lastAllocatedIno,
      (addSigned 32 p.2.iom.sbi.sbFreeInodes (-1)).isSome,
      (addSigned 32 p.2.iom.superBlock.sbFreeInodes.toInt (-1)).isSome)) = some (3,true,true) := by
    decide +kernel
  rw [hrun, Option.map_some] at hcomputed
  have h := Option.some.inj hcomputed
  have hhint : s0.iom.sbi.lastAllocatedIno = 3 := congrArg Prod.fst h
  have hclear : s0.iom.ibit 3 = false := by
    rw [h0, fresh_ibit (by decide)]
    rfl
  exact ⟨s0,hrun,(inode_allocation_complete_iff hm (by omega)).mpr
    ⟨.inl ⟨by omega,3,by omega,hclear⟩,rfl,congrArg (fun p => p.2.1) h,congrArg (fun p => p.2.2) h⟩⟩

/-- Once the last inode has been handed out, the hint is the number of inodes: the allocation fails and
loses the bitmap although nearly every bit is clear. -/
theorem inode_allocation_incomplete : ∃ s0, formatAndMount quietEnv (blankDisk 80) = some (true,s0) ∧
    (s0.iom.setInoHint 32).Mounted ∧ (s0.iom.setInoHint 32).inodeNum = 32 ∧
    (s0.iom.setInoHint 32).sbi.lastAllocatedIno = 32 ∧ (s0.iom.setInoHint 32).ibit 3 = false ∧
    ¬InodeAllocationComplete quietEnv { s0 with iom := s0.iom.setInoHint 32 } := by
  obtain ⟨s0,root,a,b,hrun,_,h0⟩ := blankDisk_fresh
  have hsec : IsSector (blankDisk 80).iom.dev.blksszget := .inl rfl
  have hm : s0.iom.Mounted := h0 ▸ fresh_mounted hsec
  have hnum : s0.iom.inodeNum = 32 := by
    have hcs : s0.iom.clusterSize = 8 * 512 := h0 ▸ fresh_clusterSize hsec
    have hmul := hm.inodeNum_mul
    unfold lab4InodeEntrySize at hmul
    omega
  have hbit : ∀ k < 8 * 4096, s0.iom.ibit k = decide (k ≤ 2) := fun k hk => by
    rw [h0]
    exact fresh_ibit hk
  refine ⟨s0,hrun,hm.setInoHint,hnum,rfl,hbit 3 (by omega),?_⟩
  have hhint : (32 : ℕ) ≤ s0.iom.inodeNum := by omega
  refine not_complete_of_not_reaches hm.setInoHint hhint ?_
  rintro (⟨hlt,_⟩ | ⟨_,hset,_⟩)
  · have : (32 : ℕ) < s0.iom.inodeNum := hlt
    omega
  · have hclear : s0.iom.ibit s0.iom.inodeNum = false := by
      rw [hnum, hbit 32 (by omega)]
      rfl
    cases hset.symm.trans hclear

end SimpleFS
