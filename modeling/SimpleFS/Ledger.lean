import SimpleFS.Books

/-! # The ledger

Live records are sound, free records are clear, and each block has one owner and a set bit. Every change
of the books an operation makes keeps this, whatever happens to the directories.
-/
namespace SimpleFS

structure LiveRecord (k : ℕ) (v : Inode) : Prop where
  ino : v.iIno = UInt32.ofNat k
  type : v.iType = lab4TypeFile ∨ v.iType = lab4TypeDirectory
  tail : v.iSize ≠ 0 → ∀ j, j ≠ 0 → v.iBlocks j = 0
  dirSize : v.iType = lab4TypeDirectory → v.iSize = 4096

structure FreeRecord (v : Inode) : Prop where
  type : v.iType = 0
  ino : v.iIno = 0
  size : v.iSize = 0
  block : v.iBlocks 0 = 0

namespace Books

structure Ledger (c : Books) : Prop where
  cluster : IsCluster c.clusterSize
  live : ∀ k, c.Live k → LiveRecord k (c.inode k)
  free : ∀ k, 2 ≤ k → k < c.num → c.ibit k = false → FreeRecord (c.inode k)
  own : ∀ k, c.Live k → (c.inode k).iSize ≠ 0 → ∃ b, c.Owns k b ∧ c.blockAddr b + c.clusterSize ≤ 2^31 ∧ c.dbit b = true
  distinct : ∀ k l b, c.Owns k b → c.Owns l b → k = l
  reserved : ∀ k, k ≤ 2 → c.ibit k = true
  root : (c.inode 2).iType = lab4TypeDirectory

variable {c : Books} {k l b : ℕ} {v : Inode}

theorem blockAddr_inj (hcs : 0 < c.clusterSize) {b b' : ℕ} (h : c.blockAddr b = c.blockAddr b') : b = b' := by
  unfold blockAddr at h
  exact Nat.eq_of_mul_eq_mul_right hcs (by omega)

theorem Owns.unique_block (hcs : 0 < c.clusterSize) {b' : ℕ} (h : c.Owns k b) (h' : c.Owns k b') : b = b' :=
  blockAddr_inj hcs (h.addr.symm.trans h'.addr)

namespace Ledger
variable (h : c.Ledger)
include h

theorem clusterSize_pos : 0 < c.clusterSize := by
  rcases h.cluster with h | h | h | h <;> omega

theorem num_le : 32 ≤ c.num ∧ c.num ≤ 256 := by
  unfold num lab4InodeEntrySize
  rcases h.cluster with h | h | h | h <;> omega

theorem live_root : c.Live 2 := ⟨le_rfl,by have := h.num_le; omega,h.reserved 2 le_rfl⟩

/-- A clear bit belongs to a number behind the root. -/
theorem behind_root (hk : c.ibit k = false) : 3 ≤ k := by
  by_contra hn
  rw [h.reserved k (by omega)] at hk
  cases hk

theorem ino_toNat (hk : c.Live k) : (c.inode k).iIno.toNat = k := by
  have := h.num_le
  have := hk.2.1
  rw [(h.live k hk).ino]
  exact UInt32.toNat_ofNat_of_lt' (by rw [UInt32.size]; omega)

end Ledger

/-! ## Changes that keep the ledger -/

/-- Storing a record that agrees with the old one in everything the ledger reads. -/
theorem Ledger.store_like (h : c.Ledger) (hino : v.iIno = (c.inode k).iIno) (htype : v.iType = (c.inode k).iType)
    (hsize : v.iSize = (c.inode k).iSize) (hblocks : v.iBlocks = (c.inode k).iBlocks) : (c.store k v).Ledger := by
  have hfield : ∀ {α : Type} (g : Inode → α), g v = g (c.inode k) → ∀ j, g ((c.store k v).inode j) = g (c.inode j) := by
    intro α g hg j
    unfold store
    by_cases hj : j = k
    · subst hj
      simp only [Function.update_self, hg]
    · simp only [Function.update_of_ne hj]
  have hI := hfield Inode.iIno hino
  have hT := hfield Inode.iType htype
  have hS := hfield Inode.iSize hsize
  have hB := hfield Inode.iBlocks hblocks
  have hA : ∀ j, (c.store k v).addr j = c.addr j := fun j => by rw [addr, addr, hB]
  have hO : ∀ j b, (c.store k v).Owns j b ↔ c.Owns j b := fun j b =>
    ⟨fun ho => ⟨ho.live,hS j ▸ ho.size,hA j ▸ ho.addr⟩,fun ho => ⟨ho.live,(hS j).symm ▸ ho.size,(hA j).symm ▸ ho.addr⟩⟩
  refine ⟨h.cluster,fun j hj => ?_,fun j h2 hj hb => ?_,fun j hj hs => ?_,fun j l b hj hl => ?_,h.reserved,?_⟩
  · obtain ⟨h1,h2,h3,h4⟩ := h.live j hj
    exact ⟨(hI j).trans h1,by rwa [hT],by rwa [hS, hB],by rwa [hT, hS]⟩
  · obtain ⟨h1,h3,h4,h5⟩ := h.free j h2 hj hb
    exact ⟨(hT j).trans h1,(hI j).trans h3,(hS j).trans h4,by rwa [hB]⟩
  · rw [hS] at hs
    obtain ⟨b,hb,hle,hbit⟩ := h.own j hj hs
    exact ⟨b,(hO j b).mpr hb,hle,hbit⟩
  · exact h.distinct j l b ((hO j b).mp hj) ((hO l b).mp hl)
  · rw [hT]
    exact h.root

theorem Ledger.relink (h : c.Ledger) (f : UInt32 → UInt32) : (c.relink f k).Ledger := h.store_like rfl rfl rfl rfl

/-- The books after storing record `k`, seen from another record. -/
theorem store_of_ne (hl : l ≠ k) : (c.store k v).inode l = c.inode l := Function.update_of_ne hl _ _

theorem store_self : (c.store k v).inode k = v := by simp [store]

theorem live_take : (c.take k v).Live l ↔ (l = k ∧ 2 ≤ k ∧ k < c.num) ∨ (l ≠ k ∧ c.Live l) := by
  unfold Live take
  by_cases hl : l = k
  · subst hl
    simp [num, store]
  · simp [num, store, hl]

theorem live_release : (c.release k).Live l ↔ l ≠ k ∧ c.Live l := by
  unfold Live release
  by_cases hl : l = k
  · subst hl
    simp
  · simp [num, store, hl]

theorem take_ibit (d : ℕ → Bool) : ((c.take k v).withDbit d).ibit l = Function.update c.ibit k true l := (rfl)
theorem release_ibit (d : ℕ → Bool) : ((c.release k).withDbit d).ibit l = Function.update c.ibit k false l := (rfl)

/-- Taking an inode and, for a directory, a block: the new owner is the only change. -/
theorem Ledger.take (h : c.Ledger) (hk : k < c.num) (hbit : c.ibit k = false) (hv : LiveRecord k v)
    (d : ℕ → Bool) (hd : ∀ b, c.dbit b = true → d b = true)
    (hown : v.iSize ≠ 0 → ∃ b, (v.iBlocks 0).toNat = c.blockAddr b ∧ c.blockAddr b + c.clusterSize ≤ 2^31 ∧
      d b = true ∧ c.dbit b = false) : ((c.take k v).withDbit d).Ledger := by
  have hk3 := h.behind_root hbit
  have hnot : ¬c.Live k := fun hl => by
    rw [hl.2.2] at hbit
    cases hbit
  have hlive : ∀ l, ((c.take k v).withDbit d).Live l ↔ l = k ∨ c.Live l := by
    intro l
    rw [show ((c.take k v).withDbit d).Live l ↔ (c.take k v).Live l from Iff.rfl, live_take]
    constructor
    · rintro (⟨hl,_⟩ | ⟨_,hl⟩)
      · exact .inl hl
      · exact .inr hl
    · rintro (rfl | hl)
      · exact .inl ⟨rfl,by omega,hk⟩
      · exact .inr ⟨fun hlk => hnot (hlk ▸ hl),hl⟩
  have hne : ∀ {l}, c.Live l → l ≠ k := fun hl hlk => hnot (hlk ▸ hl)
  have hold : ∀ {l b}, c.Live l → ((c.take k v).withDbit d).Owns l b → c.Owns l b := by
    intro l b hl ho
    have hsize := ho.size
    have haddr := ho.addr
    refine ⟨hl,?_,?_⟩
    · rwa [show ((c.take k v).withDbit d).inode l = c.inode l from store_of_ne (hne hl)] at hsize
    · rwa [Books.addr, show ((c.take k v).withDbit d).inode l = c.inode l from store_of_ne (hne hl)] at haddr
  have hself : ((c.take k v).withDbit d).inode k = v := store_self
  -- a block the new record names had a clear bit, so nobody else owns it
  have hnew : ∀ {l b}, c.Owns l b → ((c.take k v).withDbit d).Owns k b → False := by
    intro l b ho hn
    have hsize := hn.size
    rw [hself] at hsize
    obtain ⟨b',haddr,_,_,hclear⟩ := hown hsize
    have hb : b' = b := by
      refine blockAddr_inj h.clusterSize_pos (haddr.symm.trans ?_)
      have := hn.addr
      rwa [Books.addr, hself] at this
    obtain ⟨b2,ho2,_,hset⟩ := h.own l ho.live ho.size
    rw [ho2.unique_block h.clusterSize_pos ho, ← hb, hclear] at hset
    cases hset
  refine ⟨h.cluster,fun l hl => ?_,fun l h2 hl hb => ?_,fun l hl hs => ?_,fun l l' b hl hl' => ?_,fun l hl => ?_,?_⟩
  · rcases (hlive l).mp hl with rfl | hl
    · rwa [hself]
    · rw [show ((c.take k v).withDbit d).inode l = c.inode l from store_of_ne (hne hl)]
      exact h.live l hl
  · rw [take_ibit] at hb
    have hlk : l ≠ k := by
      rintro rfl
      rw [Function.update_self] at hb
      cases hb
    rw [show ((c.take k v).withDbit d).inode l = c.inode l from store_of_ne hlk]
    rw [Function.update_of_ne hlk] at hb
    exact h.free l h2 hl hb
  · rcases (hlive l).mp hl with rfl | hl'
    · rw [hself] at hs
      obtain ⟨b,haddr,hle,hset,_⟩ := hown hs
      exact ⟨b,⟨hl,by rwa [hself],by rw [Books.addr, hself]; exact haddr⟩,hle,hset⟩
    · have hin : ((c.take k v).withDbit d).inode l = c.inode l := store_of_ne (hne hl')
      rw [hin] at hs
      obtain ⟨b,ho,hle,hset⟩ := h.own l hl' hs
      exact ⟨b,⟨hl,by rwa [hin],by rw [Books.addr, hin]; exact ho.addr⟩,hle,hd b hset⟩
  · rcases (hlive l).mp hl.live with rfl | h1
    · rcases (hlive l').mp hl'.live with rfl | h1'
      · rfl
      · exact (hnew (hold h1' hl') hl).elim
    · rcases (hlive l').mp hl'.live with rfl | h1'
      · exact (hnew (hold h1 hl) hl').elim
      · exact h.distinct l l' b (hold h1 hl) (hold h1' hl')
  · have hlk : l ≠ k := by omega
    rw [take_ibit, Function.update_of_ne hlk]
    exact h.reserved l hl
  · rw [show ((c.take k v).withDbit d).inode 2 = c.inode 2 from store_of_ne (by omega)]
    exact h.root

/-- Releasing an inode and, if it owned one, its block. -/
theorem Ledger.release (h : c.Ledger) (hk : 3 ≤ k) (d : ℕ → Bool) (hd : ∀ l b, l ≠ k → c.Owns l b → d b = true) :
    ((c.release k).withDbit d).Ledger := by
  have hlive : ∀ l, ((c.release k).withDbit d).Live l ↔ l ≠ k ∧ c.Live l := fun l => live_release
  have hin : ∀ {l}, l ≠ k → ((c.release k).withDbit d).inode l = c.inode l := fun hl => store_of_ne hl
  have hself : ((c.release k).withDbit d).inode k = Inode.zero := store_self
  have howns : ∀ {l b}, l ≠ k → (((c.release k).withDbit d).Owns l b ↔ c.Owns l b) := by
    intro l b hl
    constructor
    · intro ho
      exact ⟨((hlive l).mp ho.live).2,hin hl ▸ ho.size,by rw [Books.addr, ← hin hl]; exact ho.addr⟩
    · intro ho
      exact ⟨(hlive l).mpr ⟨hl,ho.live⟩,(hin hl).symm ▸ ho.size,by rw [Books.addr, hin hl]; exact ho.addr⟩
  refine ⟨h.cluster,fun l hl => ?_,fun l h2 hl hb => ?_,fun l hl hs => ?_,fun l l' b hl hl' => ?_,fun l hl => ?_,?_⟩
  · obtain ⟨hlk,hl⟩ := (hlive l).mp hl
    rw [hin hlk]
    exact h.live l hl
  · by_cases hlk : l = k
    · subst hlk
      rw [hself]
      exact ⟨rfl,rfl,rfl,rfl⟩
    · rw [hin hlk]
      rw [release_ibit, Function.update_of_ne hlk] at hb
      exact h.free l h2 hl hb
  · obtain ⟨hlk,hl'⟩ := (hlive l).mp hl
    rw [hin hlk] at hs
    obtain ⟨b,ho,hle,_⟩ := h.own l hl' hs
    exact ⟨b,(howns hlk).mpr ho,hle,hd l b hlk ho⟩
  · obtain ⟨hlk,_⟩ := (hlive l).mp hl.live
    obtain ⟨hlk',_⟩ := (hlive l').mp hl'.live
    exact h.distinct l l' b ((howns hlk).mp hl) ((howns hlk').mp hl')
  · rw [release_ibit, Function.update_of_ne (by omega)]
    exact h.reserved l hl
  · rw [hin (by omega)]
    exact h.root

/-- Storing a record that names a block: the one it owned before, or one nobody owned. -/
theorem Ledger.store_owner (h : c.Ledger) (hk : c.Live k) (hv : LiveRecord k v) (hk3 : 3 ≤ k) (d : ℕ → Bool)
    (hd : ∀ b, c.dbit b = true → d b = true) (haddr : (v.iBlocks 0).toNat = c.blockAddr b)
    (hle : c.blockAddr b + c.clusterSize ≤ 2^31) (hset : d b = true) (hsize : v.iSize ≠ 0)
    (hfree : c.Owns k b ∨ c.dbit b = false) : ((c.store k v).withDbit d).Ledger := by
  have hin : ∀ {l}, l ≠ k → ((c.store k v).withDbit d).inode l = c.inode l := fun hl => store_of_ne hl
  have hself : ((c.store k v).withDbit d).inode k = v := store_self
  have howns : ∀ {l b}, l ≠ k → (((c.store k v).withDbit d).Owns l b ↔ c.Owns l b) := by
    intro l b hl
    exact ⟨fun ho => ⟨ho.live,hin hl ▸ ho.size,by rw [Books.addr, ← hin hl]; exact ho.addr⟩,
      fun ho => ⟨ho.live,(hin hl).symm ▸ ho.size,by rw [Books.addr, hin hl]; exact ho.addr⟩⟩
  have hb : ∀ {b'}, ((c.store k v).withDbit d).Owns k b' → b' = b := by
    intro b' ho
    refine blockAddr_inj h.clusterSize_pos (Eq.trans ?_ haddr)
    have := ho.addr.symm
    rwa [Books.addr, hself] at this
  have hnew : ∀ {l}, l ≠ k → c.Owns l b → False := by
    intro l hl ho
    rcases hfree with hf | hf
    · exact hl (h.distinct l k b ho hf)
    · obtain ⟨b2,ho2,_,hset2⟩ := h.own l ho.live ho.size
      rw [ho2.unique_block h.clusterSize_pos ho, hf] at hset2
      cases hset2
  refine ⟨h.cluster,fun l hl => ?_,fun l h2 hl hbit => ?_,fun l hl hs => ?_,fun l l' b' hl hl' => ?_,h.reserved,?_⟩
  · by_cases hlk : l = k
    · subst hlk
      rwa [hself]
    · rw [hin hlk]
      exact h.live l hl
  · have hlk : l ≠ k := by
      rintro rfl
      exact absurd (hk.2.2.symm.trans hbit) (by decide)
    rw [hin hlk]
    exact h.free l h2 hl hbit
  · by_cases hlk : l = k
    · subst hlk
      exact ⟨b,⟨hl,by rwa [hself],by rw [Books.addr, hself]; exact haddr⟩,hle,hset⟩
    · rw [hin hlk] at hs
      obtain ⟨b',ho,hle',hset'⟩ := h.own l hl hs
      exact ⟨b',(howns hlk).mpr ho,hle',hd b' hset'⟩
  · by_cases hlk : l = k
    · by_cases hlk' : l' = k
      · exact hlk.trans hlk'.symm
      · subst hlk
        obtain rfl := hb hl
        exact (hnew hlk' ((howns hlk').mp hl')).elim
    · by_cases hlk' : l' = k
      · subst hlk'
        obtain rfl := hb hl'
        exact (hnew hlk ((howns hlk).mp hl)).elim
      · exact h.distinct l l' b' ((howns hlk).mp hl) ((howns hlk').mp hl')
  · rw [hin (by omega)]
    exact h.root

end Books

end SimpleFS
