import SimpleFS.Outcomes
import SimpleFS.Fresh

/-! # Records and blocks a consistent volume adds to the ledger

Files have one link, free records are zero, every block number lies in the data area and the root has
the first block.
-/
namespace SimpleFS
open Bytes Machine SlotTree

namespace Books

variable {c : Books} {n k l b : ℕ} {v : Inode}

theorem owns_congr {c' : Books} (hl : c'.Live k ↔ c.Live k) (hi : c'.inode k = c.inode k)
    (hcs : c'.clusterSize = c.clusterSize) : c'.Owns k b ↔ c.Owns k b := by
  have haddr : c'.addr k = c.addr k := by rw [addr, addr, hi]
  have hblk : c'.blockAddr b = c.blockAddr b := by rw [blockAddr, blockAddr, hcs]
  exact ⟨fun h => ⟨hl.mp h.live,hi ▸ h.size,by rw [← haddr, ← hblk]; exact h.addr⟩,
    fun h => ⟨hl.mpr h.live,hi.symm ▸ h.size,by rw [haddr, hblk]; exact h.addr⟩⟩

theorem owns_withDbit {d : ℕ → Bool} : (c.withDbit d).Owns k b ↔ c.Owns k b := owns_congr Iff.rfl rfl rfl

theorem take_inode (hl : l ≠ k) : (c.take k v).inode l = c.inode l := store_of_ne hl
theorem release_inode (hl : l ≠ k) : (c.release k).inode l = c.inode l := store_of_ne hl
theorem relink_inode {f : UInt32 → UInt32} (hl : l ≠ k) : (c.relink f k).inode l = c.inode l := store_of_ne hl

theorem relink_self {f : UInt32 → UInt32} :
    (c.relink f k).inode k = { c.inode k with iLinksCount := f (c.inode k).iLinksCount } := store_self

theorem owns_take (hl : l ≠ k) : (c.take k v).Owns l b ↔ c.Owns l b :=
  owns_congr (by rw [live_take]; simp [hl]) (take_inode hl) rfl

theorem owns_relink {f : UInt32 → UInt32} (hl : l ≠ k) : (c.relink f k).Owns l b ↔ c.Owns l b :=
  owns_congr (show (c.relink f k).Live l ↔ c.Live l from Iff.rfl) (relink_inode hl) rfl

theorem owns_release : (c.release k).Owns l b ↔ l ≠ k ∧ c.Owns l b := by
  by_cases hl : l = k
  · refine ⟨fun h => absurd hl (live_release.mp h.live).1,fun h => absurd hl h.1⟩
  · rw [owns_congr (c := c) (by rw [live_release]; simp [hl]) (release_inode hl) rfl]
    simp [hl]

theorem kind_take_of_ne (hl : l ≠ k) : (c.take k v).kind l = c.kind l :=
  kind_congr (by rw [live_take]; simp [hl]) (congrArg Inode.iType (take_inode hl))

theorem kind_release_of_ne (hl : l ≠ k) : (c.release k).kind l = c.kind l :=
  kind_congr (by rw [live_release]; simp [hl]) (congrArg Inode.iType (release_inode hl))

theorem kind_relink {f : UInt32 → UInt32} : (c.relink f k).kind l = c.kind l := by
  refine kind_congr Iff.rfl ?_
  by_cases hlk : l = k
  · subst hlk
    rw [relink_self]
  · exact congrArg Inode.iType (relink_inode hlk)

/-! ## Properties of the records of files -/

def EachFile (c : Books) (P : Inode → Prop) : Prop := ∀ k, c.kind k = some .file → P (c.inode k)

namespace EachFile
variable {P : Inode → Prop} (h : c.EachFile P)
include h

theorem take (hv : v.iType = lab4TypeFile → P v) : (c.take k v).EachFile P := by
  intro l hl
  by_cases hlk : l = k
  · subst hlk
    have ht := (kind_eq_file.mp hl).2
    rw [show (c.take l v).inode l = v from store_self] at ht ⊢
    exact hv ht
  · rw [kind_take_of_ne hlk] at hl
    rw [take_inode hlk]
    exact h l hl

theorem release : (c.release k).EachFile P := by
  intro l hl
  have hlk : l ≠ k := by
    rintro rfl
    exact (live_release.mp (kind_eq_file.mp hl).1).1 rfl
  rw [kind_release_of_ne hlk] at hl
  rw [release_inode hlk]
  exact h l hl

/-- Counting a link on a record that is no file's. -/
theorem relink (hk : c.kind k ≠ some .file) (f : UInt32 → UInt32) : (c.relink f k).EachFile P := by
  intro l hl
  rw [kind_relink] at hl
  have hlk : l ≠ k := by
    rintro rfl
    exact hk hl
  rw [relink_inode hlk]
  exact h l hl

end EachFile

/-! ## Neat books -/

structure Neat (c : Books) (n : ℕ) : Prop where
  links : c.EachFile (fun v => v.iLinksCount = 1)
  tail : c.EachFile (fun v => ∀ j, j ≠ 0 → v.iBlocks j = 0)
  zero : ∀ k, 3 ≤ k → k < c.num → c.ibit k = false → c.inode k = Inode.zero
  below : ∀ k b, c.Owns k b → b < n
  first : c.Owns 2 0

namespace Neat
variable (h : c.Neat n)
include h

theorem withDbit (d : ℕ → Bool) : (c.withDbit d).Neat n :=
  ⟨h.links,h.tail,h.zero,fun k b hk => h.below k b (owns_withDbit.mp hk),owns_withDbit.mpr h.first⟩

theorem take (hk : 3 ≤ k) (hlinks : v.iType = lab4TypeFile → v.iLinksCount = 1)
    (htail : ∀ j, j ≠ 0 → v.iBlocks j = 0)
    (hown : v.iSize ≠ 0 → ∃ b, b < n ∧ (v.iBlocks 0).toNat = c.blockAddr b) (hcs : 0 < c.clusterSize) :
    (c.take k v).Neat n := by
  have hself : (c.take k v).inode k = v := store_self
  refine ⟨EachFile.take h.links hlinks,EachFile.take h.tail (fun _ => htail),fun l h3 hln hb => ?_,fun l b' ho => ?_,(owns_take (by omega)).mpr h.first⟩
  · have hlk : l ≠ k := by
      rintro rfl
      rw [show (c.take l v).ibit l = true from Function.update_self _ _ _] at hb
      cases hb
    rw [show (c.take k v).ibit l = c.ibit l from Function.update_of_ne hlk _ _] at hb
    rw [take_inode hlk]
    exact h.zero l h3 hln hb
  · by_cases hlk : l = k
    · subst hlk
      obtain ⟨b,hb,haddr⟩ := hown (hself ▸ ho.size)
      have hbb : c.blockAddr b = c.blockAddr b' := by
        rw [← haddr, ← hself]
        exact ho.addr
      rwa [← blockAddr_inj hcs hbb]
    · exact h.below l b' ((owns_take hlk).mp ho)

theorem release (hk : 3 ≤ k) : (c.release k).Neat n := by
  refine ⟨EachFile.release h.links,EachFile.release h.tail,fun l h3 hln hb => ?_,fun l b ho => h.below l b (owns_release.mp ho).2,
    owns_release.mpr ⟨by omega,h.first⟩⟩
  · by_cases hlk : l = k
    · subst hlk
      exact store_self
    · rw [show (c.release k).ibit l = c.ibit l from Function.update_of_ne hlk _ _] at hb
      rw [release_inode hlk]
      exact h.zero l h3 hln hb

/-- Counting a link on a directory. -/
theorem relink (hk : c.kind k = some .dir) (f : UInt32 → UInt32) : (c.relink f k).Neat n := by
  have hlive : c.Live k := by
    by_contra hn
    rw [kind_eq_none.mpr hn] at hk
    cases hk
  have ho : ∀ l b, (c.relink f k).Owns l b → c.Owns l b := by
    intro l b ho
    by_cases hlk : l = k
    · subst hlk
      exact ⟨ho.live,by have := ho.size; rwa [relink_self] at this,by have := ho.addr; rwa [addr, relink_self] at this⟩
    · exact (owns_relink hlk).mp ho
  have hf : c.kind k ≠ some .file := by
    rw [hk]
    decide
  refine ⟨EachFile.relink h.links hf f,EachFile.relink h.tail hf f,fun l h3 hln hb => ?_,fun l b hl => h.below l b (ho l b hl),?_⟩
  · have hlk : l ≠ k := by
      rintro rfl
      exact Bool.false_ne_true (hb.symm.trans hlive.2.2)
    rw [relink_inode hlk]
    exact h.zero l h3 hln hb
  · by_cases h2 : 2 = k
    · subst h2
      exact ⟨h.first.live,by rw [relink_self]; exact h.first.size,by rw [addr, relink_self]; exact h.first.addr⟩
    · exact (owns_relink h2).mpr h.first

end Neat

end Books

end SimpleFS
