import SimpleFS.Consistency

/-! # Stored block addresses

The address of a data block is computed in `long` or `unsigned`, stored in 32 bits and read back as `int`
or `long`. The bitmap has a bit for addresses that do not fit: all readers see the same byte offset only
below 2^31.
-/
namespace SimpleFS
open Bytes Machine Prog

variable {m : Iom} {v : Inode} {b : ℕ}

/-! ## What is stored and what is read -/

/-- The record has the address that one of the two operations stores for block `b`. -/
def Iom.Stores (m : Iom) (b : ℕ) (v : Inode) : Prop := v.iBlocks 0 = m.mkdirAddr b ∨ v.iBlocks 0 = m.writeAddr b

/-- Every reader finds the byte offset of block `b`, its bit is found again, and no other block number of
the bitmap is stored as the same address. -/
structure AddressRoundTrips (m : Iom) (b : ℕ) : Prop where
  int : ∀ v, m.Stores b v → v.blocknr = (m.sbi.dareaStart + b * m.clusterSize : ℕ)
  long : ∀ v, m.Stores b v → v.blocknrLong = (m.sbi.dareaStart + b * m.clusterSize : ℕ)
  array : ∀ v, m.Stores b v → v.blockAt 0 = (m.sbi.dareaStart + b * m.clusterSize : ℕ)
  inbmap : ∀ v, m.Stores b v → m.blocknrInbmap v = b
  alone : ∀ v b', m.Stores b v → b' < 8 * m.clusterSize → m.Stores b' v → b' = b

/-! ## The range -/

section Mounted
variable (hm : m.Mounted)
include hm

theorem Iom.Mounted.blockAddr_eq : m.sbi.dareaStart + b * m.clusterSize = m.blockAddr b := by
  rw [hm.dareaStart, Iom.blockAddr, Nat.add_comm]

/-- Both operations store the address modulo 2^32. -/
theorem Iom.Mounted.stores_iff : m.Stores b v ↔ v.iBlocks 0 = UInt32.ofNat (m.blockAddr b) := by
  unfold Iom.Stores
  rw [hm.mkdirAddr_eq, hm.writeAddr_eq, or_self]

theorem Iom.Mounted.stores_addr (hlt : m.blockAddr b < 2^32) (hv : m.Stores b v) : (v.iBlocks 0).toNat = m.blockAddr b := by
  rw [hm.stores_iff.mp hv, UInt32.toNat_ofNat_of_lt' (by rwa [UInt32.size])]

/-- Of the four cluster sizes only the largest has addresses of 2^32 and more. -/
theorem Iom.Mounted.blockAddr_lt (hne : m.clusterSize ≠ 32768) (hb : b < 8 * m.clusterSize) : m.blockAddr b < 2^32 := by
  unfold Iom.blockAddr
  rcases hm.cluster with h | h | h | h <;> rw [h] at hb ⊢ <;> omega

/-- There every address is that of two block numbers. -/
theorem Iom.Mounted.shared (hcs : m.clusterSize = 32768) (hb : b < 8 * m.clusterSize) (hv : m.Stores b v) :
    ∃ b', b' < 8 * m.clusterSize ∧ m.Stores b' v ∧ b' ≠ b := by
  have hmod : ∀ n n', (n : ℕ) % 2^32 = n' % 2^32 → UInt32.ofNat n = UInt32.ofNat n' := fun n n' h =>
    UInt32.toNat.inj (by rw [UInt32.toNat_ofNat', UInt32.toNat_ofNat', h])
  by_cases hlt : b < 2^17
  · refine ⟨b + 2^17,by omega,hm.stores_iff.mpr ((hm.stores_iff.mp hv).trans (hmod _ _ ?_)),by omega⟩
    rw [Iom.blockAddr, Iom.blockAddr, hcs]
    omega
  · refine ⟨b - 2^17,by omega,hm.stores_iff.mpr ((hm.stores_iff.mp hv).trans (hmod _ _ ?_)),by omega⟩
    rw [Iom.blockAddr, Iom.blockAddr, hcs]
    omega

/-- The address of a block number of the bitmap is the same for everyone exactly when it is below 2^31 and the
sector size is not the largest one. -/
theorem address_round_trips_iff (hb : b < 8 * m.clusterSize) :
    AddressRoundTrips m b ↔ m.clusterSize ≠ 32768 ∧ m.sbi.dareaStart + b * m.clusterSize < 2^31 := by
  have hstored : m.Stores b { Inode.zero with iBlocks := fun _ => m.mkdirAddr b } := .inl rfl
  rw [hm.blockAddr_eq]
  constructor
  · intro h
    constructor
    · intro hcs
      obtain ⟨b',hb',hv,hne⟩ := hm.shared hcs hb hstored
      exact hne (h.alone _ b' hstored hb' hv)
    · by_contra hge
      have hint := h.int _ hstored
      have hrange : ∀ x : ℤ, toS32 x < 2^31 := fun x => by
        unfold toS32
        exact BitVec.toInt_lt
      have := hrange ((m.mkdirAddr b).toNat : ℕ)
      rw [hm.blockAddr_eq] at hint
      change toS32 ((m.mkdirAddr b).toNat : ℕ) = _ at hint
      omega
  · rintro ⟨hcs,hlt⟩
    have haddr : ∀ v, m.Stores b v → (v.iBlocks 0).toNat = m.blockAddr b := fun v hv => hm.stores_addr (by omega) hv
    have hcs' := hm.cluster_le
    refine ⟨fun v hv => ?_,fun v hv => ?_,fun v hv => ?_,fun v hv => hm.blocknrInbmap_eq (by omega) (haddr v hv),
      fun v b' hv hb' hv' => ?_⟩
    · rw [hm.blockAddr_eq, Inode.blocknr_eq (by rw [haddr v hv]; exact hlt), haddr v hv]
    · rw [hm.blockAddr_eq, Inode.blocknrLong, haddr v hv]
    · rw [hm.blockAddr_eq, Inode.blockAt_eq (by rw [haddr v hv]; exact hlt), haddr v hv]
    · have heq : m.blockAddr b' = m.blockAddr b :=
        (hm.stores_addr (hm.blockAddr_lt hcs hb') hv').symm.trans (haddr v hv)
      unfold Iom.blockAddr at heq
      exact Nat.eq_of_mul_eq_mul_right (show 0 < m.clusterSize by omega) (by omega)

end Mounted

/-- The block behind the one of the root on a new volume with 512-byte sectors. -/
theorem address_round_trips_blank : ∃ s0, formatAndMount quietEnv (blankDisk 80) = some (true,s0) ∧
    AddressRoundTrips s0.iom 1 := by
  obtain ⟨s0,root,a,b,hrun,_,h0⟩ := blankDisk_fresh
  have hm : s0.iom.Mounted := h0 ▸ fresh_mounted (.inl rfl)
  have hcs : s0.iom.clusterSize = 4096 := h0 ▸ fresh_clusterSize (.inl rfl)
  exact ⟨s0,hrun,(address_round_trips_iff hm (by omega)).mpr ⟨by omega,by rw [hm.dareaStart]; omega⟩⟩

/-- On a volume with 2048-byte sectors the bitmap has a bit for the block at 2^31, which `int` readers take for a
negative offset. -/
theorem address_read_negative : ∃ s s0, s.iom.dev.blksszget = 2048 ∧ formatAndMount quietEnv s = some (true,s0) ∧
    131068 < 8 * s0.iom.clusterSize ∧ (∀ v, s0.iom.Stores 131068 v → v.blocknr = -2^31) ∧
    ¬AddressRoundTrips s0.iom 131068 := by
  have hwp : wp False formatAndMount (fun ok s0 => ok = true ∧ s0.iom.Mounted ∧ s0.iom.clusterSize = 16384) quietEnv
      ⟨openDevice ⟨zeros,4194400,2048⟩,0⟩ :=
    wp_formatAndMount quietEnv_nominal (.inr (.inr (.inl rfl))) (fun _ root a b _ h => ⟨rfl,
      h ▸ fresh_mounted (.inr (.inr (.inl rfl))),h ▸ fresh_clusterSize (.inr (.inr (.inl rfl)))⟩)
  obtain ⟨ok,s0,hrun,rfl,hm,hcs⟩ := wp_false.mp hwp
  have hneg : ∀ v, s0.iom.Stores 131068 v → v.blocknr = -2^31 := by
    intro v hv
    have haddr : s0.iom.blockAddr 131068 = 2^31 := by
      simp [Iom.blockAddr, hcs]
    rw [Inode.blocknr, hm.stores_addr (by rw [haddr]; decide) hv, haddr]
    decide
  refine ⟨_,s0,rfl,hrun,by omega,hneg,fun h => ?_⟩
  have hstored : s0.iom.Stores 131068 { Inode.zero with iBlocks := fun _ => s0.iom.mkdirAddr 131068 } := .inl rfl
  have hint := (hneg _ hstored).symm.trans (h.int _ hstored)
  omega

end SimpleFS
