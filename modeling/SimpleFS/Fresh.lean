import SimpleFS.Mounting

/-! # A new file system

What a mount finds right after a format: three reserved inodes, one block in use, the record of the root
and its two dot entries.
-/
namespace SimpleFS
open Bytes Machine SlotTree Prog

/-- A logical sector size for which the layout is meant. -/
def IsSector (n : ℕ) : Prop := n = 512 ∨ n = 1024 ∨ n = 2048 ∨ n = 4096

variable {d : Device} {root : Inode} {heap : ℕ → Mem} {a b : ℤ} {i j k : ℕ}

theorem openDevice_cluster (h : IsSector d.blksszget) :
    (openDevice d).clusterSize = 8 * d.blksszget ∧ (openDevice d).blkSize = d.blksszget := by
  have hconv : ∀ n, IsSector n → (toS32 ((n : ℤ) * 2^3)).toNat = 8 * n ∧ (toS32 n).toNat = n := by
    rintro n (rfl | rfl | rfl | rfl) <;> decide
  exact hconv _ h

theorem IsSector.cluster (h : IsSector d.blksszget) : IsCluster (openDevice d).clusterSize := by
  rw [(openDevice_cluster h).1]
  unfold IsCluster
  rcases h with h | h | h | h <;> omega

/-- The device of a new file system, mounted. -/
def freshIom (d : Device) (root : Inode) (heap : ℕ → Mem) (a b : ℤ) : Iom := mountIom (formattedDevice d root) heap a b

/-! ## The clusters of the image -/

/-- The data that format writes at cluster `pos`. -/
def formatCluster (d : Device) (root : Inode) : ℕ → Mem
  | 0 => superBlockCodec.put zeros 0 (newSuperBlock d)
  | 1 => newIbmap
  | 2 => newDbmap
  | 3 => rootTable root
  | _ => newDirArea (UInt32.ofNat lab4RootIno) (UInt32.ofNat lab4RootIno)

theorem formatImage_cluster {pos : ℕ} (hpos : pos ≤ 4) (hi : i < (openDevice d).clusterSize) :
    formatImage d root (pos * (openDevice d).clusterSize + i) = formatCluster d root pos i := by
  unfold formatImage
  generalize (openDevice d).clusterSize = cs at *
  match pos with
  | 0 =>
    rw [splice_outside (by omega), splice_outside (by omega), splice_outside (by omega), splice_outside (by omega),
      splice_inside (by omega) (by omega)]
    simp [formatCluster]
  | 1 =>
    rw [splice_outside (by omega), splice_outside (by omega), splice_outside (by omega), splice_shift hi]
    rfl
  | 2 =>
    rw [splice_outside (by omega), splice_outside (by omega), splice_shift hi]
    rfl
  | 3 =>
    rw [splice_outside (by omega), splice_shift hi]
    rfl
  | 4 =>
    rw [splice_shift hi]
    rfl

theorem cluster_formatted {pos : ℕ} (hpos : pos ≤ 4) (hi : i < (openDevice d).clusterSize) :
    (formattedDevice d root).cluster heap pos i = formatCluster d root pos i := by
  have hcs : (openDevice (formattedDevice d root)).clusterSize = (openDevice d).clusterSize := rfl
  unfold Device.cluster
  rw [hcs, splice_inside (Nat.zero_le i) (by omega), Mem.shift_apply, Nat.sub_zero]
  exact formatImage_cluster hpos hi

/-! ## The books -/

/-- The counter of free blocks starts at the size of the data area. -/
theorem newSuperBlock_freeBlocks (d : Device) : (newSuperBlock d).sbFreeBlocks.toInt = (newSuperBlock d).sbDareaSize.toNat := by
  have hlt : toU32 ((((openDevice d).noOfSectors * (openDevice d).blkSize).tdiv (openDevice d).clusterSize) - 4) < 2^32 :=
    BitVec.isLt _
  have hfree : (newSuperBlock d).sbFreeBlocks.toInt =
      toU32 ((((openDevice d).noOfSectors * (openDevice d).blkSize).tdiv (openDevice d).clusterSize) - 4) :=
    Int64.toInt_ofNat_of_lt (by omega)
  have hsize : (newSuperBlock d).sbDareaSize.toNat =
      toU32 ((((openDevice d).noOfSectors * (openDevice d).blkSize).tdiv (openDevice d).clusterSize) - 4) :=
    Nat.mod_eq_of_lt hlt
  rw [hfree, hsize]

section Books
variable (hsec : IsSector d.blksszget) (hroot : DirRecord lab4RootIno (4 * (openDevice d).clusterSize) root)
include hsec

theorem fresh_cluster_le : 4096 ≤ (openDevice d).clusterSize ∧ (openDevice d).clusterSize ≤ 32768 := by
  rcases hsec.cluster with h | h | h | h <;> omega

theorem fresh_clusterSize : (freshIom d root heap a b).clusterSize = 8 * d.blksszget := (openDevice_cluster hsec).1

theorem fresh_superBlock : (freshIom d root heap a b).superBlock = newSuperBlock d := by
  have hcs := fresh_cluster_le hsec
  have hput : superBlockCodec.get (superBlockCodec.put zeros 0 (newSuperBlock d)) 0 = newSuperBlock d :=
    superBlockCodec.get_put_self
  rw [← hput]
  refine superBlockCodec.get_congr (fun i _ hi => ?_)
  rw [superBlockCodec_size] at hi
  exact cluster_formatted (by omega) (by omega)

theorem fresh_device_superBlock : (formattedDevice d root).superBlock heap = newSuperBlock d :=
  fresh_superBlock (a := 0) (b := 0) hsec

omit hsec in
theorem fresh_inode (hk : k * lab4InodeEntrySize + lab4InodeEntrySize ≤ (openDevice d).clusterSize) :
    (freshIom d root heap a b).inode k = inodeCodec.get (rootTable root) (k * lab4InodeEntrySize) := by
  refine inodeCodec.get_congr (fun i _ hi => ?_)
  rw [inodeCodec_size] at hi
  exact cluster_formatted (by omega) (by unfold lab4InodeEntrySize at *; omega)

omit hsec in
theorem inode_zeros (k : ℕ) : inodeCodec.get zeros k = Inode.zero := by
  have hz : ∀ i < 128, inodeCodec.enc Inode.zero i = 0 := by decide +kernel
  exact inodeCodec.dec_of_agree _ _ (fun i _ hi => (hz i (by simpa using hi)).symm)

omit hsec in
theorem rootTable_root : inodeCodec.get (rootTable root) (lab4RootIno * lab4InodeEntrySize) = root :=
  inodeCodec.get_put_self

omit hsec in
theorem rootTable_behind (hk : 3 ≤ k) : inodeCodec.get (rootTable root) (k * lab4InodeEntrySize) = Inode.zero := by
  have hsz : inodeCodec.size = 128 := rfl
  unfold rootTable
  rw [inodeCodec.get_put_of_disjoint (.inr (by rw [hsz]; unfold lab4RootIno lab4InodeEntrySize; omega)),
    inodeCodec.get_put_of_disjoint (.inr (by rw [hsz]; unfold lab4InodeEntrySize; omega)),
    inodeCodec.get_put_of_disjoint (.inr (by rw [hsz]; unfold lab4InodeEntrySize; omega)), inode_zeros]

omit hsec in
theorem newIbmap_bit (k : ℕ) : bit newIbmap k = decide (k ≤ 2) := by
  have hset : newIbmap = setBit (setBit (setBit zeros 0) 1) 2 := by
    rw [← lab4SetBit_snd, ← lab4SetBit_snd, ← lab4SetBit_snd]
    rfl
  rw [hset, bit_setBit, bit_setBit, bit_setBit, bit_zeros, Bool.eq_iff_iff]
  simp only [Bool.or_eq_true, decide_eq_true_eq, Bool.false_eq_true, or_false]
  omega

omit hsec in
theorem newDbmap_bit (c : ℕ) : bit newDbmap c = decide (c = 0) := by
  rw [newDbmap, lab4SetBit_snd, bit_setBit, bit_zeros, Bool.or_false]

omit hsec in
theorem bit_congr {m m' : Mem} {c : ℕ} (h : m (c / 8) = m' (c / 8)) : bit m c = bit m' c := by
  unfold bit
  rw [h]

omit hsec in
theorem fresh_ibit (hk : k < 8 * (openDevice d).clusterSize) : (freshIom d root heap a b).ibit k = decide (k ≤ 2) := by
  rw [← newIbmap_bit]
  exact bit_congr (cluster_formatted (by omega) (by omega))

omit hsec in
theorem fresh_dbit (hk : k < 8 * (openDevice d).clusterSize) : (freshIom d root heap a b).dbit k = decide (k = 0) := by
  rw [← newDbmap_bit]
  exact bit_congr (cluster_formatted (by omega) (by omega))

omit hsec in
theorem fresh_inode_behind (hk : 3 ≤ k) (hkn : k < (freshIom d root heap a b).inodeNum) :
    (freshIom d root heap a b).inode k = Inode.zero := by
  have hkn' : k < (openDevice d).clusterSize / lab4InodeEntrySize := hkn
  rw [fresh_inode (by unfold lab4InodeEntrySize at *; omega), rootTable_behind hk]

theorem fresh_inode_root : (freshIom d root heap a b).inode 2 = root := by
  have := fresh_cluster_le hsec
  exact (fresh_inode (by unfold lab4InodeEntrySize; omega)).trans rootTable_root

theorem fresh_live : (freshIom d root heap a b).books.Live k ↔ k = 2 := by
  have hcs := fresh_cluster_le hsec
  unfold Books.Live
  constructor
  · rintro ⟨h2,hk,hbit⟩
    have hk' : k < (openDevice d).clusterSize / lab4InodeEntrySize := hk
    change (freshIom d root heap a b).ibit k = true at hbit
    rw [fresh_ibit (by unfold lab4InodeEntrySize at hk'; omega)] at hbit
    have := of_decide_eq_true hbit
    omega
  · rintro rfl
    refine ⟨le_rfl,?_,?_⟩
    · change 2 < (openDevice d).clusterSize / lab4InodeEntrySize
      unfold lab4InodeEntrySize
      omega
    · exact (fresh_ibit (by omega)).trans rfl

theorem fresh_sbi : (freshIom d root heap a b).sbi = SbInfo.ofSuperBlock (newSuperBlock d) a b := by
  have hsb : (freshIom d root heap a b).superBlock = newSuperBlock d := fresh_superBlock hsec
  rw [← hsb]
  rfl

theorem newSuperBlock_cluster : (newSuperBlock d).sbSectorSize.toInt * 2^(newSuperBlock d).sbBlockSizeShift.toInt.toNat =
    ((openDevice d).clusterSize : ℕ) := by
  have hcl := openDevice_cluster hsec
  change (Int64.ofNat (openDevice d).blkSize).toInt * 2^((3 : Int64).toInt.toNat) = _
  rw [hcl.1, hcl.2]
  rcases hsec with h | h | h | h <;> rw [h] <;> decide

/-- The size of the data area in bytes, as far as 32 bits hold it. -/
theorem fresh_dareaSize : (freshIom d root heap a b).sbi.dareaSize =
    (openDevice d).clusterSize * (newSuperBlock d).sbDareaSize.toNat % 2^32 := by
  have hcs := fresh_cluster_le hsec
  rw [fresh_sbi hsec]
  change inBytes (newSuperBlock d).sbDareaSize (toS32 ((newSuperBlock d).sbSectorSize.toInt *
    2^(newSuperBlock d).sbBlockSizeShift.toInt.toNat)) = _
  rw [newSuperBlock_cluster hsec, inBytes, toS32_natCast (by omega), ← Nat.cast_mul, toU32, BitVec.toNat_ofInt, Nat.mul_comm]
  rfl

theorem fresh_mounted : (freshIom d root heap a b).Mounted := by
  have hcs := fresh_cluster_le hsec
  have hsb : (freshIom d root heap a b).superBlock = newSuperBlock d := fresh_superBlock hsec
  have hsbi : (freshIom d root heap a b).sbi = SbInfo.ofSuperBlock (newSuperBlock d) a b := fresh_sbi hsec
  have hbytes : ∀ n : UInt32, n.toNat ≤ 4 → inBytes n (toS32 ((openDevice d).clusterSize : ℕ)) =
      n.toNat * (openDevice d).clusterSize := by
    intro n hn
    have := Nat.mul_le_mul_right (openDevice d).clusterSize hn
    unfold inBytes
    rw [toS32_natCast (by omega), ← Nat.cast_mul, toU32_natCast (by omega)]
  have hin : ∀ n : UInt32, n.toNat ≤ 4 → inBytes n (toS32 ((newSuperBlock d).sbSectorSize.toInt *
      2^(newSuperBlock d).sbBlockSizeShift.toInt.toNat)) = n.toNat * (openDevice d).clusterSize := by
    intro n hn
    rw [newSuperBlock_cluster hsec, hbytes n hn]
  refine ⟨hsec.cluster,?_,?_,?_,?_,?_,?_,?_,?_,?_,rfl,rfl⟩
  · rw [hsbi]
    exact (congrArg Int.toNat (newSuperBlock_cluster hsec)).trans (Int.toNat_natCast _)
  · rw [hsbi]
    exact (hin 0 (by decide)).trans (Nat.zero_mul _)
  · rw [hsbi]
    exact (hin 1 (by decide)).trans (Nat.one_mul _)
  · rw [hsbi]
    exact (hin 1 (by decide)).trans (Nat.one_mul _)
  · rw [hsbi]
    exact hin 2 (by decide)
  · rw [hsbi]
    exact hin 3 (by decide)
  · rw [hsbi]
    exact hin 4 (by decide)
  · rw [hsb]
    rfl
  · rw [hsbi]
    rfl

include hroot

theorem fresh_owns : (freshIom d root heap a b).books.Owns 2 0 := by
  have hcs := fresh_cluster_le hsec
  have hin : (freshIom d root heap a b).books.inode 2 = root := fresh_inode_root hsec
  refine ⟨(fresh_live hsec).mpr rfl,?_,?_⟩
  · rw [hin, hroot.size]
    decide
  · have haddr : (freshIom d root heap a b).books.blockAddr 0 = 4 * (openDevice d).clusterSize :=
      (congrArg (· + 4 * (openDevice d).clusterSize) (Nat.zero_mul _)).trans (Nat.zero_add _)
    rw [Books.addr, hin, haddr, hroot.block]
    exact UInt32.toNat_ofNat_of_lt' (by rw [UInt32.size]; omega)

theorem fresh_ledger : (freshIom d root heap a b).books.Ledger := by
  have hcs := fresh_cluster_le hsec
  have hin : (freshIom d root heap a b).books.inode 2 = root := fresh_inode_root hsec
  have hlive : ∀ k, (freshIom d root heap a b).books.Live k ↔ k = 2 := fun k => fresh_live hsec
  refine ⟨hsec.cluster,fun k hk => ?_,fun k h2 hkn hbit => ?_,fun k hk _ => ?_,fun k l c hk hl => ?_,fun k hk => ?_,?_⟩
  · obtain rfl := (hlive k).mp hk
    rw [hin]
    exact hroot.live
  · have hkn' : k < (openDevice d).clusterSize / lab4InodeEntrySize := hkn
    change (freshIom d root heap a b).ibit k = false at hbit
    rw [fresh_ibit (by unfold lab4InodeEntrySize at hkn'; omega)] at hbit
    have := of_decide_eq_false hbit
    have hz : (freshIom d root heap a b).books.inode k = Inode.zero := fresh_inode_behind (by omega) hkn
    rw [hz]
    exact ⟨rfl,rfl,rfl,rfl⟩
  · obtain rfl := (hlive k).mp hk
    refine ⟨0,fresh_owns hsec hroot,?_,(fresh_dbit (by omega)).trans rfl⟩
    change 0 * (openDevice d).clusterSize + 4 * (openDevice d).clusterSize + (openDevice d).clusterSize ≤ 2^31
    omega
  · rw [(hlive k).mp hk.live, (hlive l).mp hl.live]
  · exact (fresh_ibit (by omega)).trans (decide_eq_true hk)
  · rw [hin, hroot.type]

/-! ## The tree -/

omit hsec hroot in
theorem fresh_entries (hi : i < lab4DirEntryNum) (hcs : 4096 ≤ (openDevice d).clusterSize) :
    (freshIom d root heap a b).entries 0 i =
      entryAt (newDirArea (UInt32.ofNat lab4RootIno) (UInt32.ofNat lab4RootIno)) i := by
  rw [entries_of_lt hi]
  apply dirEntryCodec.dec_congr
  intro n _ hn
  rw [dirEntryCodec_size] at hn
  have hlt : lab4DirEntrySize * i + n < (openDevice d).clusterSize := by
    unfold lab4DirEntryNum lab4DirEntrySize at *
    omega
  have hdata := @formatImage_cluster d root _ 4 le_rfl hlt
  rw [Mem.shift_apply, Mem.shift_apply]
  refine Eq.trans ?_ hdata
  change formatImage d root (0 * (openDevice d).clusterSize + 4 * (openDevice d).clusterSize + _ + n) = _
  rw [Nat.zero_mul, Nat.zero_add, Nat.add_assoc]

theorem fresh_tree : (freshIom d root heap a b).tree = rootTree shape := by
  have hl : (freshIom d root heap a b).books.Ledger := fresh_ledger hsec hroot
  have hcs := fresh_cluster_le hsec
  have hkind : (freshIom d root heap a b).books.kind = (rootTree shape).kind := by
    funext k
    by_cases hk : k = 2
    · subst hk
      exact hl.kind_root.trans (rootTree_kind.mpr rfl).symm
    · rw [Books.kind_eq_none.mpr (fun h => hk ((fresh_live hsec).mp h))]
      have hk' : k ≠ shape.root := hk
      simp [rootTree, hk']
  have hblock : (freshIom d root heap a b).books.block 2 = 0 :=
    (fresh_owns hsec hroot).block_eq hl.clusterSize_pos
  have hslot : (freshIom d root heap a b).books.slot (freshIom d root heap a b).entries = (rootTree shape).slot := by
    funext D i
    unfold Books.slot
    by_cases hD : D = shape.root
    · subst hD
      have hk : (freshIom d root heap a b).books.kind shape.root = some .dir := hl.kind_root
      have hslot : (rootTree shape).slot shape.root i = freshDir shape shape.root shape.root i := by
        simp [rootTree]
      rw [hslot]
      by_cases hi : i < lab4DirEntryNum
      · rw [if_pos ⟨hk,hi⟩, show shape.root = 2 from rfl, hblock, fresh_entries hi hcs.1]
        exact Books.newDirArea_binding (by decide) (by decide) hi
      · rw [if_neg (fun h => hi h.2)]
        obtain ⟨n,rfl⟩ : ∃ n, i = n + 2 := ⟨i - 2,by unfold lab4DirEntryNum lab4DirEntrySize at hi; omega⟩
        rfl
    · have hk : (freshIom d root heap a b).books.kind D ≠ some .dir := by
        rw [hkind]
        exact fun h => hD (rootTree_kind.mp h)
      rw [if_neg (fun h => hk h.1)]
      simp [rootTree, hD]
  unfold Iom.tree Books.tree
  rw [hkind, hslot]

theorem fresh_sane : (freshIom d root heap a b).Sane :=
  ⟨fresh_mounted hsec,fresh_ledger hsec hroot,by
    rw [fresh_tree hsec hroot]
    exact rootTree_sound (by decide)⟩

end Books

/-! ## The rule -/

/-- Format and mount succeed and leave a new file system. -/
theorem wp_formatAndMount {u : Prop} {e : Env} {s : Sys} {Q : Bool → Sys → Prop} (he : e.Nominal)
    (hsec : IsSector s.iom.dev.blksszget)
    (h : ∀ s' root a b, DirRecord lab4RootIno (4 * (openDevice s.iom.dev).clusterSize) root →
      s'.iom = freshIom s.iom.dev root e.heap a b → Q true s') : wp u formatAndMount Q e s := by
  unfold formatAndMount
  rw [wp_bind]
  apply wp_mkfs he.io he.malloc
  intro s1 root hroot h1
  have hsec1 : IsCluster (openDevice s1.iom.dev).clusterSize := by rw [h1]; exact hsec.cluster
  refine wp_mount he.io he.malloc hsec1 (fun s2 a b _ h2 => ?_) (fun s2 hsig => ?_)
  · rw [h1] at h2
    exact h s2 root a b hroot h2
  · rw [h1, fresh_device_superBlock hsec] at hsig
    exact absurd rfl hsig

end SimpleFS
