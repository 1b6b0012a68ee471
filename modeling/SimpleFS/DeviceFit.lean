import SimpleFS.FirstFit

/-! # Does the layout fit the device?

Format divides the length that `BLKGETSIZE` reports, which counts units of 512 bytes, as if it counted
sectors, and the mount takes the number of blocks through a 32-bit number of bytes. What comes out has to
be the number of data clusters of the device, as far as one cluster of bits can cover them.
-/
namespace SimpleFS
open Bytes Machine Prog

variable {e : Env} {s s' : Sys} {m : Iom} {b c len : ℕ} {x : Mem}

/-! ## What the allocator can hand out -/

/-- The state with another value of the counter in memory, which a mount leaves indeterminate. -/
def Iom.countBlocks (m : Iom) (c : ℤ) : Iom := { m with sbi := { m.sbi with sbFreeBlocks := c } }

/-- `scan_allocate_dbmap` can return block `b` when the bitmap holds `x`. -/
def Iom.HandsOut (m : Iom) (x : Mem) (b : ℕ) : Prop :=
  ∃ e s s' c, s.iom = (m.setDbmap x).countBlocks c ∧ scanAllocateDbmap e s = some ((lab4Success,b),s')

theorem scan_of_scanAllocate (h : scanAllocateDbmap e s = some ((lab4Success,b),s')) :
    s.iom.blockScan = some (true,b) ∧ b < s.iom.maxBlock := by
  have hrun : wp True scanAllocateDbmap
      (fun p _ => p.1 = lab4Success → s.iom.blockScan = some (true,p.2) ∧ p.2 < s.iom.maxBlock) e s := by
    unfold scanAllocateDbmap
    rw [wp_bind, wp_getIom]
    cases hx : s.iom.iomBufDbmap with
    | none =>
      rw [wp_undefined]
      trivial
    | some y =>
      have hy : s.iom.dbmap = y := by rw [Iom.dbmap, hx, Option.getD_some]
      dsimp only
      rw [wp_bind, wp_lift]
      refine ⟨fun _ => trivial,?_⟩
      rintro ⟨found,b⟩ hscan
      rw [wp_ite]
      refine ⟨fun hb => ?_,fun _ => ?_⟩
      · obtain ⟨rfl,hb⟩ := hb
        rw [wp_bind, wp_setIom, wp_bind]
        refine wp_bumpFreeBlocks (fun _ => trivial) (fun s1 _ _ => ?_)
        rw [wp_pure]
        exact fun _ => ⟨by rw [Iom.blockScan, hy]; exact hscan,hb⟩
      · rw [wp_bind, wp_setIom, wp_pure]
        exact fun hn => absurd (show lab4Error = lab4Success from hn) (by decide)
  exact hrun.elim h rfl

theorem scanAllocate_of_scan {x : Mem} (hx : s.iom.iomBufDbmap = some x) (hroom : s.iom.BlockRoom (-1))
    (hscan : s.iom.blockScan = some (true,b)) (hb : b < s.iom.maxBlock) :
    ∃ s', scanAllocateDbmap e s = some ((lab4Success,b),s') := by
  have hbuf : s.iom.dbmap = x := by rw [Iom.dbmap, hx, Option.getD_some]
  rw [Iom.blockScan, hbuf] at hscan
  have hrun : wp False scanAllocateDbmap (fun p _ => p = (lab4Success,b)) e s := by
    simp only [scanAllocateDbmap, wp_bind, wp_getIom, hx, wp_lift]
    refine ⟨fun hn => (by cases hn.symm.trans hscan),?_⟩
    rintro a ha
    cases hscan.symm.trans ha
    rw [if_pos ⟨rfl,hb⟩]
    simp only [wp_bind, wp_setIom, wp_pure, decFreeBlocks]
    exact wp_bumpFreeBlocks (fun hn => hn hroom) (fun _ _ _ => trivial)
  obtain ⟨_,s',hr,rfl⟩ := wp_false.mp hrun
  exact ⟨s',hr⟩

/-- What the allocator hands out is what its scan finds in range. -/
theorem handsOut_iff (hroom : (addSigned 64 m.superBlock.sbFreeBlocks.toInt (-1)).isSome = true) :
    m.HandsOut x b ↔ (m.setDbmap x).blockScan = some (true,b) ∧ b < m.maxBlock := by
  constructor
  · rintro ⟨e,s,s',c,hs,hrun⟩
    have hscan := scan_of_scanAllocate hrun
    rw [hs] at hscan
    exact hscan
  · rintro ⟨hscan,hb⟩
    obtain ⟨s',hrun⟩ := scanAllocate_of_scan (e := quietEnv) (s := ⟨(m.setDbmap x).countBlocks 0,0⟩) rfl ⟨rfl,hroom⟩ hscan hb
    exact ⟨_,_,s',0,rfl,hrun⟩

/-- A device of `len` bytes holds every block that the allocator can hand out, clear of the metadata and of every
other block, with its bit inside the bitmap; and the allocator can hand out every data cluster there is. -/
structure Iom.LayoutFits (m : Iom) (len : ℕ) : Prop where
  scans : ∀ x, (m.setDbmap x).blockScan.isSome
  bitmap : ∀ x b, m.HandsOut x b → b < 8 * m.clusterSize
  device : ∀ x b, m.HandsOut x b → m.blockAddr b + m.clusterSize ≤ len
  metadata : ∀ x b, m.HandsOut x b → 4 * m.clusterSize ≤ m.blockAddr b
  apart : ∀ x b c, m.HandsOut x b → c ≠ b →
    m.blockAddr c + m.clusterSize ≤ m.blockAddr b ∨ m.blockAddr b + m.clusterSize ≤ m.blockAddr c
  complete : ∀ b < 8 * m.clusterSize, m.blockAddr b + m.clusterSize ≤ len → ∃ x, m.HandsOut x b

/-! ## The scan at the edge of the bitmap -/

/-- The scan leaves the buffer when the bits before its edge are set. -/
theorem bitScan_eq_none {max cap count pos i : ℕ} {buf : Mem} (hi : i < count)
    (hin : ∀ j < i, scanPos max pos j < 8 * cap ∧ bit buf (scanPos max pos j) = true)
    (hout : 8 * cap ≤ scanPos max pos i) : bitScan max cap buf count pos = none := by
  induction count generalizing pos i with
  | zero => omega
  | succ count ih =>
    rw [bitScan]
    cases i with
    | zero =>
      rw [scanPos] at hout
      rw [if_pos (by rw [Nat.shiftRight_eq_div_pow]; omega)]
    | succ i =>
      obtain ⟨h0,hset⟩ := hin 0 (Nat.succ_pos i)
      rw [scanPos] at h0 hset
      have ht : lab4TestBit pos buf ≠ 0 := fun h => by cases hset.symm.trans (lab4TestBit_eq_zero.mp h)
      rw [if_neg (by rw [Nat.shiftRight_eq_div_pow]; omega), if_neg ht]
      refine ih (i := i) (by omega) (fun j hj => ?_) ?_
      · rw [scanPos_shift]
        exact hin (j + 1) (by omega)
      · rw [scanPos_shift]
        exact hout

/-- A bitmap with every block in use but `b`. -/
def allBut (b : ℕ) : Mem := clearBit (fun _ => 255) b

theorem bit_allBut (b q : ℕ) : bit (allBut b) q = decide (q ≠ b) := by
  have hbits : ∀ i < 8, Nat.testBit 255 i = true := by decide
  have hall : bit (fun _ => 255) q = true := hbits (q % 8) (Nat.mod_lt _ (by decide))
  rw [allBut, bit_clearBit, hall]
  by_cases hq : q = b <;> simp [hq]

/-! ## The one number of blocks that fits -/

section Scannable
variable (hroom : (addSigned 64 m.superBlock.sbFreeBlocks.toInt (-1)).isSome = true) (hhint : m.sbi.lastAllocatedBlknr = 1)
include hhint

theorem scannable_setDbmap (h2 : 2 ≤ m.maxBlock) (hcap : m.maxBlock ≤ 8 * m.clusterSize) (x : Mem) :
    (m.setDbmap x).BlockScannable := ⟨rfl,h2,hcap,show m.sbi.lastAllocatedBlknr < m.maxBlock by omega⟩

include hroom in
/-- With one block free the allocator hands that one out. -/
theorem handsOut_allBut (h2 : 2 ≤ m.maxBlock) (hcap : m.maxBlock ≤ 8 * m.clusterSize) (hb : b < m.maxBlock) :
    m.HandsOut (allBut b) b := by
  have hs := scannable_setDbmap hhint h2 hcap (allBut b)
  have hbit : ∀ q, (m.setDbmap (allBut b)).dbit q = decide (q ≠ b) := bit_allBut b
  rcases hs.blockScan_cases with ⟨c,hscan,hfirst⟩ | ⟨_,_,hfull⟩
  · have hclear := hfirst.lt.2
    rw [hbit] at hclear
    obtain rfl : c = b := by simpa using hclear
    exact (handsOut_iff hroom).mpr ⟨hscan,hb⟩
  · have hset := hfull b hb
    rw [hbit] at hset
    simp at hset

/-- A range behind the bitmap makes the scan of a full bitmap leave it. -/
theorem blockScan_leaves (hcs : 0 < m.clusterSize) (hcap : 8 * m.clusterSize < m.maxBlock) :
    (m.setDbmap (fun _ => 255)).blockScan = none := by
  have hbits : ∀ i < 8, Nat.testBit 255 i = true := by decide
  have hpos : ∀ j < m.maxBlock - 1, scanPos m.maxBlock m.sbi.lastAllocatedBlknr j = 1 + j := fun j hj => by
    rw [hhint, scanPos_of_lt (by omega), Nat.mod_eq_of_lt (by omega)]
  refine bitScan_eq_none (i := 8 * m.clusterSize - 1) (show _ < m.maxBlock by omega) (fun j hj => ?_) ?_
  · change scanPos m.maxBlock m.sbi.lastAllocatedBlknr j < 8 * m.clusterSize ∧ _
    refine ⟨?_,hbits _ (Nat.mod_lt _ (by decide))⟩
    rw [hpos j (by omega)]
    omega
  · change 8 * m.clusterSize ≤ scanPos m.maxBlock m.sbi.lastAllocatedBlknr (8 * m.clusterSize - 1)
    rw [hpos _ (by omega)]
    omega

include hroom

theorem layoutFits_of_eq (h6 : 6 * m.clusterSize ≤ len)
    (hcs : 0 < m.clusterSize) (h : m.maxBlock = min (len / m.clusterSize - 4) (8 * m.clusterSize)) : m.LayoutFits len := by
  have hsix : 6 ≤ len / m.clusterSize := (Nat.le_div_iff_mul_le hcs).mpr h6
  have h2 : 2 ≤ m.maxBlock := by omega
  have hcap : m.maxBlock ≤ 8 * m.clusterSize := by omega
  have hinside : ∀ b < m.maxBlock, m.blockAddr b + m.clusterSize ≤ len := fun b hb => by
    have hmul : (b + 5) * m.clusterSize ≤ len := (Nat.le_div_iff_mul_le hcs).mp (by omega)
    unfold Iom.blockAddr
    linarith
  have hrange : ∀ x b, m.HandsOut x b → b < m.maxBlock := fun x b hb => ((handsOut_iff hroom).mp hb).2
  refine ⟨fun x => ?_,fun x b hb => (hrange x b hb).trans_le hcap,fun x b hb => hinside b (hrange x b hb),fun _ _ _ => ?_,
    fun _ b c _ hne => ?_,fun b hb hdev => ⟨_,handsOut_allBut hroom hhint h2 hcap ?_⟩⟩
  · rcases (scannable_setDbmap hhint h2 hcap x).blockScan_cases with ⟨_,hscan,_⟩ | ⟨_,hscan,_⟩ <;> rw [hscan] <;> rfl
  · exact Nat.le_add_left _ _
  · unfold Iom.blockAddr
    rcases Nat.lt_or_gt_of_ne hne with hlt | hlt
    · have := Nat.mul_le_mul_right m.clusterSize hlt
      exact .inl (by rw [Nat.succ_mul] at this; omega)
    · have := Nat.mul_le_mul_right m.clusterSize hlt
      exact .inr (by rw [Nat.succ_mul] at this; omega)
  · have hmul : (b + 5) * m.clusterSize ≤ len := by
      unfold Iom.blockAddr at hdev
      linarith
    have := (Nat.le_div_iff_mul_le hcs).mpr hmul
    omega

/-- The layout fits exactly when the allocator's range is that of the data clusters, as far as the bitmap goes. -/
theorem layoutFits_iff (h6 : 6 * m.clusterSize ≤ len) (hcs : 0 < m.clusterSize) :
    m.LayoutFits len ↔ m.maxBlock = min (len / m.clusterSize - 4) (8 * m.clusterSize) := by
  refine ⟨fun h => ?_,layoutFits_of_eq hroom hhint h6 hcs⟩
  have hsix : 6 ≤ len / m.clusterSize := (Nat.le_div_iff_mul_le hcs).mpr h6
  have hcap : m.maxBlock ≤ 8 * m.clusterSize := by
    by_contra hn
    have := h.scans (fun _ => 255)
    rw [blockScan_leaves hhint hcs (by omega)] at this
    cases this
  have hall : ∀ b < 8 * m.clusterSize, b < len / m.clusterSize - 4 → b < m.maxBlock := fun b hb hlt => by
    have hmul : (b + 5) * m.clusterSize ≤ len := (Nat.le_div_iff_mul_le hcs).mp (by omega)
    obtain ⟨x,hx⟩ := h.complete b hb (by unfold Iom.blockAddr; linarith)
    exact ((handsOut_iff hroom).mp hx).2
  have hlow : min (len / m.clusterSize - 4) (8 * m.clusterSize) ≤ m.maxBlock := by
    have := hall (min (len / m.clusterSize - 4) (8 * m.clusterSize) - 1) (by omega) (by omega)
    omega
  refine Nat.le_antisymm (Nat.le_min.mpr ⟨?_,hcap⟩) hlow
  -- the last block of the range is on the device
  have hlast := h.device _ _ (handsOut_allBut hroom hhint (by omega) hcap (b := m.maxBlock - 1) (by omega))
  have hmul : (m.maxBlock + 4) * m.clusterSize ≤ len := by
    have hsucc : m.maxBlock - 1 + 1 = m.maxBlock := by omega
    have : (m.maxBlock - 1 + 1 + 4) * m.clusterSize ≤ len := by
      unfold Iom.blockAddr at hlast
      linarith
    rwa [hsucc] at this
  have := (Nat.le_div_iff_mul_le hcs).mpr hmul
  omega

end Scannable

/-! ## The number of blocks of a new volume -/

/-- The blocks that format and mount count on `n` units and sectors of `s` bytes: eight units to a block, less four,
cut off at the bit that a number of bytes has no more room for. A length from 2^31 on is taken for a negative one,
and rounded the other way. -/
def blocksCounted (n s : ℕ) : ℕ := ((n + if n % 2^32 < 2^31 then 0 else 7) / 8 - 4) % (2^29 / s)

/-- Eight units to a block, up to multiples of 2^29. -/
theorem tdiv_toS32 (n : ℕ) : ∃ k : ℤ, (toS32 n).tdiv 8 = ((n + if n % 2^32 < 2^31 then 0 else 7 : ℕ) : ℤ) / 8 - 2^29 * k := by
  have hmod : toS32 n = if n % 2^32 < 2^31 then ((n % 2^32 : ℕ) : ℤ) else ((n % 2^32 : ℕ) : ℤ) - 2^32 := by
    rw [toS32, BitVec.toInt_ofInt, Int.bmod_def]
    split <;> split <;> omega
  rw [hmod]
  by_cases hlt : n % 2^32 < 2^31
  · rw [if_pos hlt, if_pos hlt, Int.tdiv_eq_ediv_of_nonneg (by omega)]
    exact ⟨(n / 2^32 : ℕ),by omega⟩
  · rw [if_neg hlt, if_neg hlt]
    have hneg : (((n % 2^32 : ℕ) : ℤ) - 2^32).tdiv 8 = -((2^32 - ((n % 2^32 : ℕ) : ℤ)) / 8) := by
      rw [← Int.tdiv_eq_ediv_of_nonneg (by omega), ← Int.neg_tdiv, neg_sub]
    rw [hneg]
    exact ⟨(n / 2^32 : ℕ) + 1,by omega⟩

theorem toU32_tdiv_mod {n sz : ℕ} (hsec : IsSector sz) (hn : 48 ≤ n) :
    toU32 ((toS32 n).tdiv 8 - 4) % (2^29 / sz) = blocksCounted n sz := by
  obtain ⟨k,hk⟩ := tdiv_toS32 n
  rw [hk, toU32, BitVec.toNat_ofInt, blocksCounted]
  generalize hc : (n + if n % 2^32 < 2^31 then 0 else 7) = c
  have hle : 48 ≤ c := by omega
  rcases hsec with rfl | rfl | rfl | rfl <;> omega

variable {d : Device} {root : Inode} {heap : ℕ → Mem} {a a' : ℤ}

theorem fresh_blocksCounted (hsec : IsSector d.blksszget) (hn : 48 ≤ d.blkgetsize) :
    (freshIom d root heap a a').maxBlock = blocksCounted d.blkgetsize d.blksszget := by
  have hcl := openDevice_cluster hsec
  have hcs := fresh_cluster_le hsec
  have hpos : 0 < d.blksszget := by omega
  have hcluster : (freshIom d root heap a a').sbi.clusterSize = 8 * d.blksszget :=
    (fresh_mounted hsec).sbiCluster.trans (fresh_clusterSize hsec)
  have hformat : (newSuperBlock d).sbDareaSize.toNat = toU32 ((toS32 d.blkgetsize).tdiv 8 - 4) := by
    change toU32 ((toS32 d.blkgetsize * ((openDevice d).blkSize : ℤ)).tdiv ((openDevice d).clusterSize : ℤ) - 4) % 2^32 = _
    rw [hcl.1, hcl.2, Nat.cast_mul, Int.mul_tdiv_mul_of_pos_left _ _ (by omega)]
    exact Nat.mod_eq_of_lt (BitVec.isLt _)
  have hwhole : 8 * d.blksszget * (2^29 / d.blksszget) = 2^32 := by
    rcases hsec with h | h | h | h <;> simp [h]
  rw [Iom.maxBlock, hcluster, fresh_dareaSize hsec, hcl.1, hformat, ← hwhole, Nat.mul_mod_mul_left,
    Nat.mul_div_cancel_left _ (by omega), toU32_tdiv_mod hsec hn]

/-- A new volume and the blocks that format and mount count on its device. -/
theorem formatAndMount_fits (he : e.Nominal) (hsec : IsSector s.iom.dev.blksszget)
    (h6 : 6 * (8 * s.iom.dev.blksszget) ≤ 512 * s.iom.dev.blkgetsize) :
    ∃ s0, formatAndMount e s = some (true,s0) ∧
      (s0.iom.LayoutFits (512 * s.iom.dev.blkgetsize) ↔
        blocksCounted s.iom.dev.blkgetsize s.iom.dev.blksszget =
          min (64 * s.iom.dev.blkgetsize / s.iom.dev.blksszget - 4) (64 * s.iom.dev.blksszget)) := by
  have hwp : wp False formatAndMount (fun ok s0 => ok = true ∧ ∃ root a b, s0.iom = freshIom s.iom.dev root e.heap a b) e s :=
    wp_formatAndMount he hsec (fun _ root a b _ h => ⟨rfl,root,a,b,h⟩)
  obtain ⟨ok,s0,hrun,rfl,root,a,b,h0⟩ := wp_false.mp hwp
  have hcs : s0.iom.clusterSize = 8 * s.iom.dev.blksszget := h0 ▸ fresh_clusterSize hsec
  have hhint : s0.iom.sbi.lastAllocatedBlknr = 1 := by
    rw [h0, fresh_sbi hsec]
    rfl
  have hroom : (addSigned 64 s0.iom.superBlock.sbFreeBlocks.toInt (-1)).isSome = true := by
    have hsb : s0.iom.superBlock = newSuperBlock s.iom.dev := h0 ▸ fresh_superBlock hsec
    have hlt := (newSuperBlock s.iom.dev).sbDareaSize.toNat_lt
    rw [hsb, addSigned_isSome, newSuperBlock_freeBlocks]
    omega
  have hle := fresh_cluster_le hsec
  rw [(openDevice_cluster hsec).1] at hle
  have hmax : s0.iom.maxBlock = blocksCounted s.iom.dev.blkgetsize s.iom.dev.blksszget :=
    h0 ▸ fresh_blocksCounted hsec (by omega)
  refine ⟨s0,hrun,?_⟩
  rw [layoutFits_iff hroom hhint (by rw [hcs]; exact h6) (by omega), hmax, hcs,
    show 512 * s.iom.dev.blkgetsize = 8 * (64 * s.iom.dev.blkgetsize) by omega, Nat.mul_div_mul_left _ _ (by decide),
    ← Nat.mul_assoc]

/-- A format and a mount give a layout that fits the device exactly when the blocks they count are its data clusters,
as far as one cluster of bits covers them. With sectors of 512 bytes and less than 2^31 units, that is when there are
no more data clusters than bits, or the cut leaves just as many. -/
theorem layout_fits_device_iff (he : e.Nominal) (hsec : IsSector s.iom.dev.blksszget)
    (h6 : 6 * (8 * s.iom.dev.blksszget) ≤ 512 * s.iom.dev.blkgetsize) :
    ∃ s0, formatAndMount e s = some (true,s0) ∧
      (s0.iom.LayoutFits (512 * s.iom.dev.blkgetsize) ↔
        blocksCounted s.iom.dev.blkgetsize s.iom.dev.blksszget =
          min (64 * s.iom.dev.blkgetsize / s.iom.dev.blksszget - 4) (64 * s.iom.dev.blksszget)) ∧
      (s.iom.dev.blksszget = 512 → s.iom.dev.blkgetsize < 2^31 →
        (s0.iom.LayoutFits (512 * s.iom.dev.blkgetsize) ↔
          s.iom.dev.blkgetsize / 8 - 4 ≤ 2^15 ∨ (s.iom.dev.blkgetsize / 8 - 4) % 2^20 = 2^15)) := by
  obtain ⟨s0,hrun,hfits⟩ := formatAndMount_fits he hsec h6
  refine ⟨s0,hrun,hfits,fun h512 hlt => hfits.trans ?_⟩
  rw [h512] at h6 ⊢
  rw [blocksCounted, if_pos (by omega)]
  omega

/-- Six clusters of 8192 bytes: format counts eight blocks where there are two. -/
theorem layout_exceeds_device : ∃ s0, formatAndMount quietEnv ⟨openDevice ⟨zeros,96,1024⟩,0⟩ = some (true,s0) ∧
    ¬s0.iom.LayoutFits (512 * 96) := by
  obtain ⟨s0,hrun,hfits⟩ := formatAndMount_fits (e := quietEnv) (s := ⟨openDevice ⟨zeros,96,1024⟩,0⟩) quietEnv_nominal
    (.inr (.inl rfl)) (by decide)
  exact ⟨s0,hrun,fun h => absurd (hfits.mp h) (by decide)⟩

/-- Ten clusters of 4096 bytes. -/
theorem layout_fits_blank : ∃ s0, formatAndMount quietEnv (blankDisk 80) = some (true,s0) ∧ s0.iom.LayoutFits (512 * 80) := by
  obtain ⟨s0,hrun,_,hfits⟩ := layout_fits_device_iff (e := quietEnv) (s := blankDisk 80) quietEnv_nominal (.inl rfl) (by decide)
  exact ⟨s0,hrun,(hfits rfl (by decide)).mpr (.inl (by decide))⟩

end SimpleFS
