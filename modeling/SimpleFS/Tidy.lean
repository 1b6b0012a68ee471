import SimpleFS.Neat
import Mathlib.Data.Finset.Card

/-! # Set bits have owners

In the reachable books every set bit of the data bitmap belongs to a record. As there are few records, the
first clear bit is a small number, and the address of the block the allocator hands out fits its field.
-/
namespace SimpleFS
open Bytes Machine SlotTree

namespace Books

structure Tidy (c : Books) : Prop where
  /-- Bits that lie in the bitmap buffer. -/
  owned : ∀ b, b < 8 * c.clusterSize → c.dbit b = true → ∃ k, c.Owns k b
  empty : ∀ k, c.Live k → (c.inode k).iSize = 0 → c.addr k = 0

variable {c : Books} {k l b : ℕ} {v : Inode}

/-- There are not more blocks in a row in use than inodes. -/
theorem Tidy.run_le (h : c.Tidy) (hl : c.Ledger) {n : ℕ} (hn : n ≤ 8 * c.clusterSize)
    (hset : ∀ q, 1 ≤ q → q < n → c.dbit q = true) : n ≤ c.num + 1 := by
  by_contra hlt
  have hown : ∀ q ∈ Finset.Ico 1 n, ∃ k, c.Owns k q := fun q hq => by
    obtain ⟨h1,h2⟩ := Finset.mem_Ico.mp hq
    exact h.owned q (by omega) (hset q h1 h2)
  choose! f hf using hown
  obtain ⟨q,hq,q',hq',hne,heq⟩ := Finset.exists_ne_map_eq_of_card_lt_of_maps_to
    (t := Finset.range c.num) (by rw [Nat.card_Ico, Finset.card_range]; omega)
    (fun q hq => Finset.mem_coe.mpr (Finset.mem_range.mpr (hf q (Finset.mem_coe.mp hq)).live.2.1))
  have ho := hf q hq
  rw [heq] at ho
  exact hne (ho.unique_block hl.clusterSize_pos (hf q' hq'))

theorem Tidy.first_near (h : c.Tidy) (hl : c.Ledger) (hset : ∀ q, 1 ≤ q → q < b → c.dbit q = true) : b ≤ 257 := by
  have hnum := hl.num_le
  have hcs := hl.cluster
  by_contra hlt
  have := h.run_le hl (n := 258) (by rcases hcs with hcs | hcs | hcs | hcs <;> omega)
    (fun q h1 h2 => hset q h1 (by omega))
  omega

theorem Tidy.first_le (h : c.Tidy) (hl : c.Ledger) (hset : ∀ q, 1 ≤ q → q < b → c.dbit q = true) :
    c.blockAddr b + c.clusterSize ≤ 2^31 := by
  have hcs := hl.cluster
  have hb := h.first_near hl hset
  unfold blockAddr
  rcases hcs with hcs | hcs | hcs | hcs <;> rw [hcs] <;> omega

namespace Tidy
variable (h : c.Tidy)
include h

/-- A new record, with the blocks whose bits it sets. -/
theorem take (hk : ¬c.Live k) (d : ℕ → Bool) (h2 : 2 ≤ k) (hkn : k < c.num)
    (hd : ∀ b, d b = true → c.dbit b = true ∨ v.iSize ≠ 0 ∧ (v.iBlocks 0).toNat = c.blockAddr b)
    (hv : v.iSize = 0 → (v.iBlocks 0).toNat = 0) : ((c.take k v).withDbit d).Tidy := by
  have hlive : (c.take k v).Live k := live_take.mpr (.inl ⟨rfl,h2,hkn⟩)
  have hself : ((c.take k v).withDbit d).inode k = v := store_self
  refine ⟨fun b hb hset => ?_,fun l hl hs => ?_⟩
  · rcases hd b hset with hset | ⟨hsize,haddr⟩
    · obtain ⟨l,hl⟩ := h.owned b hb hset
      have hlk : l ≠ k := by
        rintro rfl
        exact hk hl.live
      exact ⟨l,owns_withDbit.mpr ((owns_take hlk).mpr hl)⟩
    · exact ⟨k,hlive,by rwa [hself],by rw [addr, hself]; exact haddr⟩
  · by_cases hlk : l = k
    · subst hlk
      rw [hself] at hs
      rw [addr, hself]
      exact hv hs
    · have hin : ((c.take k v).withDbit d).inode l = c.inode l := store_of_ne hlk
      rcases live_take.mp (show (c.take k v).Live l from hl) with ⟨hc,_⟩ | ⟨_,hc⟩
      · exact absurd hc hlk
      · rw [hin] at hs
        rw [addr, hin]
        exact h.empty l hc hs

/-- A released record takes its bit with it. -/
theorem release (d : ℕ → Bool) (hd : ∀ b, d b = true → c.dbit b = true ∧ ¬c.Owns k b) :
    ((c.release k).withDbit d).Tidy := by
  refine ⟨fun b hb hset => ?_,fun l hl hs => ?_⟩
  · obtain ⟨hset,hn⟩ := hd b hset
    obtain ⟨l,hl⟩ := h.owned b hb hset
    have hlk : l ≠ k := by
      rintro rfl
      exact hn hl
    exact ⟨l,owns_withDbit.mpr (owns_release.mpr ⟨hlk,hl⟩)⟩
  · obtain ⟨hlk,hlive⟩ := live_release.mp (show (c.release k).Live l from hl)
    have hin : ((c.release k).withDbit d).inode l = c.inode l := store_of_ne hlk
    rw [hin] at hs
    rw [addr, hin]
    exact h.empty l hlive hs

/-- Storing a record of the same size with the same blocks. -/
theorem store_like (hs : v.iSize = (c.inode k).iSize) (hb : v.iBlocks = (c.inode k).iBlocks) : (c.store k v).Tidy := by
  have hfield : ∀ {α : Type} (g : Inode → α), g v = g (c.inode k) → ∀ j, g ((c.store k v).inode j) = g (c.inode j) := by
    intro α g hg j
    by_cases hj : j = k
    · subst hj
      rw [store_self, hg]
    · rw [store_of_ne hj]
  have hS := hfield Inode.iSize hs
  have hA : ∀ j, (c.store k v).addr j = c.addr j := fun j => by rw [addr, addr, hfield Inode.iBlocks hb]
  refine ⟨fun b hb hset => ?_,fun l hl hz => ?_⟩
  · obtain ⟨l,hl⟩ := h.owned b hb hset
    exact ⟨l,hl.live,by rw [hS]; exact hl.size,by rw [hA]; exact hl.addr⟩
  · rw [hA]
    exact h.empty l hl (by rwa [hS] at hz)

theorem relink (f : UInt32 → UInt32) : (c.relink f k).Tidy := h.store_like rfl rfl

end Tidy

/-! ## The changes of the operations -/

section Changes
variable (h : c.Tidy) (hl : c.Ledger)
include h hl

theorem Tidy.createFile (hk : k < c.num) (hbit : c.ibit k = false) (hv : FileRecord k v) : (c.take k v).Tidy := by
  have hk3 := hl.behind_root hbit
  refine h.take (fun hlive => ?_) c.dbit (by omega) hk (fun b hb => .inl hb) (fun _ => by rw [hv.blocks]; rfl)
  exact Bool.false_ne_true (hbit.symm.trans hlive.2.2)

theorem Tidy.makeDir (hk : k < c.num) (hbit : c.ibit k = false) (hsize : v.iSize ≠ 0)
    (haddr : (v.iBlocks 0).toNat = c.blockAddr b) (f : UInt32 → UInt32) : (((c.take k v).own b).relink f l).Tidy := by
  have hk3 := hl.behind_root hbit
  refine (h.take (fun hlive => ?_) (Function.update c.dbit b true) (by omega) hk (fun q hq => ?_)
    (fun hz => absurd hz hsize)).relink f
  · exact Bool.false_ne_true (hbit.symm.trans hlive.2.2)
  · by_cases hqb : q = b
    · subst hqb
      exact .inr ⟨hsize,haddr⟩
    · exact .inl ((Function.update_of_ne hqb _ _).symm.trans hq)

theorem Tidy.release_disown (ho : c.Owns k b) : ((c.release k).disown b).Tidy := by
  refine h.release (Function.update c.dbit b false) (fun q hq => ?_)
  have hqb : q ≠ b := by
    rintro rfl
    rw [Function.update_self] at hq
    cases hq
  rw [Function.update_of_ne hqb] at hq
  exact ⟨hq,fun hq' => hqb (hq'.unique_block hl.clusterSize_pos ho)⟩

omit hl in
theorem Tidy.release_empty (hz : (c.inode k).iSize = 0) : (c.release k).Tidy :=
  h.release c.dbit (fun _ hq => ⟨hq,fun ho => ho.size hz⟩)

end Changes

end Books

/-! ## The io manager -/

structure Iom.Tidy (m : Iom) : Prop where
  books : m.books.Tidy
  /-- The scan for a free block always starts behind the block of the root. -/
  hint : m.sbi.lastAllocatedBlknr = 1

variable {m : Iom} {b : ℕ}

namespace Iom.Tidy
variable (h : m.Tidy) (hl : m.books.Ledger)
include h hl

omit hl in
/-- All blocks before the one the allocator finds are in use. -/
theorem set_before (hb : b < m.maxBlock)
    (hfirst : m.sbi.lastAllocatedBlknr < m.maxBlock → ∀ q, m.sbi.lastAllocatedBlknr ≤ q → q < b → m.dbit q = true) :
    ∀ q, 1 ≤ q → q < b → m.dbit q = true := fun q h1 hq => by
  rw [h.hint] at hfirst
  exact hfirst (by omega) q h1 hq

/-- The block the allocator finds has an address that fits. -/
theorem block_le (hb : b < m.maxBlock)
    (hfirst : m.sbi.lastAllocatedBlknr < m.maxBlock → ∀ q, m.sbi.lastAllocatedBlknr ≤ q → q < b → m.dbit q = true) :
    m.blockAddr b + m.clusterSize ≤ 2^31 := h.books.first_le hl (h.set_before hb hfirst)

theorem block_near (hb : b < m.maxBlock)
    (hfirst : m.sbi.lastAllocatedBlknr < m.maxBlock → ∀ q, m.sbi.lastAllocatedBlknr ≤ q → q < b → m.dbit q = true) :
    b ≤ 257 := h.books.first_near hl (h.set_before hb hfirst)

/-- Every record names an address that `int` can hold. -/
theorem addrOk : m.AddrOk := by
  intro k h2 hk
  by_cases hb : m.ibit k = true
  · have hlive : m.books.Live k := ⟨h2,hk,hb⟩
    by_cases hs : (m.inode k).iSize = 0
    · rw [show m.dataAddr k = 0 from h.books.empty k hlive hs]
      decide
    · obtain ⟨b,ho,hle,_⟩ := hl.own k hlive hs
      have haddr : m.dataAddr k = m.books.blockAddr b := ho.addr
      have hcs := hl.clusterSize_pos
      omega
  · have hz : (m.inode k).iBlocks 0 = 0 := (hl.free k h2 hk (Bool.not_eq_true _ ▸ hb)).block
    rw [Iom.dataAddr, hz]
    decide

end Iom.Tidy

end SimpleFS
