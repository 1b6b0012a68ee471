import SimpleFS.Consistency

/-! # Deleting the block tree of a file

`delete_block` zeroes the direct blocks itself and hands each indirect root to `_delete_block`, which
decrements its depth once for every entry it visits. From the second entry on the depth is off, soon it is
negative, and the recursion has no base case left.
-/
namespace SimpleFS
open Bytes Machine Prog

/-! ## The tree -/

/-- Entry `i` of the pointer block at address `p`. -/
def Iom.pointer (m : Iom) (p i : ℕ) : ℕ := (u32.get (m.dev.bytes.shift p) (4 * i)).toNat

/-- The blocks of an inode with their levels: data blocks have level 0, a pointer block has one level more than
the blocks it points to. -/
inductive Iom.BlockOf (m : Iom) (v : Inode) : ℕ → ℕ → Prop
  | root (j : Fin 15) (h : v.iBlocks j ≠ 0) : BlockOf m v (j.val - 11) (v.iBlocks j).toNat
  | child {level p i : ℕ} (h : BlockOf m v (level + 1) p) (hi : i < m.clusterSize / 4) (hne : m.pointer p i ≠ 0) :
      BlockOf m v level (m.pointer p i)

/-- A run of `delete_block` that comes to its end: no endless recursion and no read past a pointer block. Every
data block of the inode is zero afterwards and nothing else is touched. -/
structure Deleted (s s' : Sys) (v : Inode) : Prop where
  zero : ∀ a i, s.iom.BlockOf v 0 a → a ≤ i → i < a + s.iom.clusterSize → s'.iom.dev.bytes i = 0
  frame : ∀ i, (∀ level a, s.iom.BlockOf v level a → ¬(a ≤ i ∧ i < a + s.iom.clusterSize)) →
    s'.iom.dev.bytes i = s.iom.dev.bytes i

/-- With enough steps to follow, `delete_block` succeeds and has deleted the tree. -/
def DeletesTree (e : Env) (s : Sys) (v : Inode) : Prop :=
  ∃ fuel s', deleteBlock v { e with fuel := fuel } s = some (lab4Success,s') ∧ Deleted s s' v

variable {e : Env} {s s' : Sys} {v : Inode} {cs : ℕ}

theorem mem_direct : ∀ j : Fin 15, j ∈ ([0,1,2,3,4,5,6,7,8,9,10,11] : List (Fin 15)) ↔ j.val ≤ 11 := by decide

theorem indirect_cases : ∀ j : Fin 15, 12 ≤ j.val → j = 12 ∨ j = 13 ∨ j = 14 := by decide

/-! ## Direct blocks -/

/-- What zeroing the blocks that the pointers `js` name leaves. -/
structure DirectZeroed (s s' : Sys) (cs : ℕ) (v : Inode) (js : List (Fin 15)) : Prop where
  clusterSize : s'.iom.clusterSize = s.iom.clusterSize
  zero : ∀ i, (∃ j ∈ js, v.iBlocks j ≠ 0 ∧ (v.iBlocks j).toNat ≤ i ∧ i < (v.iBlocks j).toNat + cs) →
    s'.iom.dev.bytes i = 0
  keeps : ∀ i, s.iom.dev.bytes i = 0 → s'.iom.dev.bytes i = 0
  frame : ∀ i, (∀ j ∈ js, v.iBlocks j ≠ 0 → ¬((v.iBlocks j).toNat ≤ i ∧ i < (v.iBlocks j).toNat + cs)) →
    s'.iom.dev.bytes i = s.iom.dev.bytes i

theorem wp_deleteDirect {js : List (Fin 15)} (hio : e.IoOk) (hcs : cs < 2^31)
    (hlow : ∀ j ∈ js, (v.iBlocks j).toNat < 2^31) :
    wp False (deleteDirect cs v js) (fun r s' => r = lab4Success ∧ DirectZeroed s s' cs v js) e s := by
  induction js generalizing s with
  | nil =>
    rw [deleteDirect, wp_pure]
    exact ⟨rfl,rfl,by simp,fun _ h => h,fun _ _ => rfl⟩
  | cons j js ih =>
    have hblock : v.blockAt j = ((v.iBlocks j).toNat : ℕ) := Inode.blockAt_eq (hlow j (by simp))
    have hrest : ∀ l ∈ js, (v.iBlocks l).toNat < 2^31 := fun l hl => hlow l (by simp [hl])
    rw [deleteDirect, hblock, wp_ite]
    constructor
    · intro hne
      have hj : v.iBlocks j ≠ 0 := fun h0 => hne (by simp [h0])
      rw [wp_bind]
      refine wp_pwrite_ok hio (Int.natCast_nonneg _) (fun s1 h1 => ?_)
      rw [if_neg (toS32_ne_error hcs)]
      refine (ih hrest).mono (fun r s2 h => ⟨h.1,h.2.clusterSize.trans (by simp [h1]),fun i hi => ?_,fun i hi => ?_,fun i hi => ?_⟩)
      · obtain ⟨l,hl,hlne,hlo,hhi⟩ := hi
        rcases List.mem_cons.mp hl with rfl | hl
        · apply h.2.keeps
          rw [h1, Int.toNat_natCast]
          exact splice_inside hlo hhi
        · exact h.2.zero i ⟨l,hl,hlne,hlo,hhi⟩
      · apply h.2.keeps
        rw [h1, Int.toNat_natCast]
        by_cases hin : (v.iBlocks j).toNat ≤ i ∧ i < (v.iBlocks j).toNat + cs
        · exact splice_inside hin.1 hin.2
        · exact (splice_outside (by omega)).trans hi
      · rw [h.2.frame i (fun l hl => hi l (by simp [hl])), h1, Int.toNat_natCast]
        have := hi j (by simp) hj
        exact splice_outside (by omega)
    · intro heq
      have hj : v.iBlocks j = 0 := by
        by_contra hne
        exact heq (fun h0 => hne (UInt32.toNat.inj (by simpa using h0)))
      refine (ih hrest).mono (fun r s2 h => ⟨h.1,h.2.clusterSize,fun i hi => ?_,h.2.keeps,fun i hi => ?_⟩)
      · obtain ⟨l,hl,hlne,hrange⟩ := hi
        rcases List.mem_cons.mp hl with rfl | hl
        · exact absurd hj hlne
        · exact h.2.zero i ⟨l,hl,hlne,hrange⟩
      · exact h.2.frame i (fun l hl => hi l (by simp [hl]))

/-- A negative address ends the loop with an error. -/
theorem wp_deleteDirect_low {js : List (Fin 15)} :
    wp True (deleteDirect cs v js) (fun r s' => s'.iom.clusterSize = s.iom.clusterSize ∧
      (r = lab4Error ∨ ∀ j ∈ js, (v.iBlocks j).toNat < 2^31)) e s := by
  induction js generalizing s with
  | nil =>
    rw [deleteDirect, wp_pure]
    exact ⟨rfl,by simp⟩
  | cons j js ih =>
    have hneg : 2^31 ≤ (v.iBlocks j).toNat → v.blockAt j < 0 := fun h =>
      toS32_neg h (UInt32.toNat_lt _)
    have hcons : (v.iBlocks j).toNat < 2^31 → ∀ s1 : Sys, s1.iom.clusterSize = s.iom.clusterSize →
        wp True (deleteDirect cs v js) (fun r s' => s'.iom.clusterSize = s.iom.clusterSize ∧
          (r = lab4Error ∨ ∀ l ∈ j :: js, (v.iBlocks l).toNat < 2^31)) e s1 := by
      intro hj s1 h1
      refine ih.mono (fun r s' h => ⟨h.1.trans h1,h.2.imp_right (fun hrest l hl => ?_)⟩)
      rcases List.mem_cons.mp hl with rfl | hl
      · exact hj
      · exact hrest l hl
    rw [deleteDirect, wp_ite]
    constructor
    · intro _
      rw [wp_bind, wp_pwrite]
      refine ⟨fun _ => ?_,fun hok => ?_⟩
      · rw [if_pos rfl, wp_pure]
        exact ⟨rfl,.inl rfl⟩
      · have hj : (v.iBlocks j).toNat < 2^31 := by
          by_contra hge
          exact hok (.inl (hneg (by omega)))
        rw [wp_ite, wp_pure]
        exact ⟨fun hres => ⟨rfl,.inl hres⟩,fun _ => hcons hj _ rfl⟩
    · intro heq
      refine hcons ?_ s rfl
      by_contra hge
      have := hneg (by omega)
      omega

/-! ## Indirect blocks -/

theorem zeroPointed_clusterSize {buf : Mem} {left index : ℕ} :
    wp True (zeroPointed cs buf left index) (fun _ s' => s'.iom.clusterSize = s.iom.clusterSize) e s := by
  induction left generalizing index s with
  | zero =>
    rw [zeroPointed, wp_undefined]
    trivial
  | succ left ih =>
    rw [zeroPointed, wp_ite]
    refine ⟨fun _ => ?_,fun _ => ih⟩
    rw [wp_bind]
    refine wp_pwrite_any (fun r s1 h1 _ => ?_)
    have hcs : s1.iom.clusterSize = s.iom.clusterSize := h1.congr (f := Iom.clusterSize) (fun _ _ => rfl)
    rw [wp_ite, wp_pure]
    exact ⟨fun _ => hcs,fun _ => ih.mono (fun _ _ h => h.trans hcs)⟩

section Diverges
variable (hio : e.IoOk) (hlo : 8 ≤ s.iom.clusterSize) (hhi : s.iom.clusterSize < 2^31)
include hio hlo hhi

/-- On any depth but 0 the recursion goes on for ever: the first entry is visited with the next smaller depth, and
below depth 1 the second one with -1. -/
theorem deleteBlockTree_diverges {fuel a : ℕ} {depth : ℤ} (hd : depth ≠ 0) : deleteBlockTree fuel a depth e s = none := by
  induction fuel generalizing s a depth with
  | zero => rfl
  | succ fuel ih =>
    have hrun : wp True (deleteBlockTree (fuel + 1) a depth) (fun _ _ => False) e s := by
      rw [deleteBlockTree, wp_bind, wp_getIom, wp_bind]
      refine wp_pread_ok hio (Int.natCast_nonneg _) le_rfl (fun s1 h1 => ?_)
      dsimp only
      rw [if_neg (toS32_ne_error hhi), if_pos hd, wp_bind]
      -- the block has at least two entries
      obtain ⟨n,hn⟩ : ∃ n, s.iom.clusterSize / 4 = n + 2 := ⟨s.iom.clusterSize / 4 - 2,by omega⟩
      have hrange : List.range (n + 2) = 0 :: 1 :: (List.range n).map (· + 2) := by
        rw [List.range_succ_eq_map, List.range_succ_eq_map]
        simp
      rw [hn, hrange, List.foldlM_cons, wp_bind, wp_bind, wp_true]
      intro r s2 h2
      by_cases h1d : depth - 1 = 0
      · have hcs2 : s2.iom.clusterSize = s.iom.clusterSize := by
          rw [h1d] at h2
          cases fuel with
          | zero => cases h2
          | succ fuel =>
            refine wp.elim (Q := fun _ s2 => s2.iom.clusterSize = s.iom.clusterSize) ?_ h2
            rw [deleteBlockTree, wp_bind, wp_getIom, wp_bind, h1]
            refine wp_pread_ok hio (Int.natCast_nonneg _) le_rfl (fun s3 h3 => ?_)
            dsimp only
            rw [if_neg (toS32_ne_error hhi), if_neg (by decide)]
            exact zeroPointed_clusterSize.mono (fun _ _ h => by rw [h, h3, h1])
        rw [wp_pure, List.foldlM_cons, wp_bind, wp_bind, wp_true]
        intro r3 s3 h3
        rw [ih (s := s2) (by omega) (by omega) (by omega)] at h3
        cases h3
      · rw [ih (s := s1) (by rw [h1]; exact hlo) (by rw [h1]; exact hhi) h1d] at h2
        cases h2
    rcases hr : deleteBlockTree (fuel + 1) a depth e s with _ | p
    · rfl
    · exact (hrun.elim hr).elim

/-- An indirect root that is set has no run that ends. -/
theorem wp_deleteIndirect {j : Fin 15} {type : ℤ} {Q : Unit → Sys → Prop} (ht : type ≠ 0)
    (h : v.iBlocks j = 0 → Q () s) : wp True (deleteIndirect v j type) Q e s := by
  unfold deleteIndirect
  rw [wp_ite, wp_pure]
  refine ⟨fun _ => ?_,fun hj => h (by simpa using hj)⟩
  rw [wp_bind, wp_env, wp_bind, wp_true]
  intro r s1 h1
  rw [deleteBlockTree_diverges hio hlo hhi ht] at h1
  cases h1

/-- What a run that succeeds says about the pointers. -/
theorem wp_deleteBlock_pointers : wp True (deleteBlock v) (fun r _ => r = lab4Success →
    (∀ j : Fin 15, 12 ≤ j.val → v.iBlocks j = 0) ∧ ∀ j : Fin 15, j.val ≤ 11 → (v.iBlocks j).toNat < 2^31) e s := by
  unfold deleteBlock
  rw [wp_bind, wp_getIom, wp_bind]
  refine wp_deleteDirect_low.mono (fun r s1 h1 => ?_)
  have hlo1 : 8 ≤ s1.iom.clusterSize := by rw [h1.1]; exact hlo
  have hhi1 : s1.iom.clusterSize < 2^31 := by rw [h1.1]; exact hhi
  rw [wp_ite, wp_pure]
  refine ⟨fun hr hsucc => absurd (hr.symm.trans hsucc) (by decide),fun hr => ?_⟩
  have hlow := h1.2.resolve_left hr
  rw [wp_bind]
  refine wp_deleteIndirect hio hlo1 hhi1 (by decide) (fun h12 => ?_)
  rw [wp_bind]
  refine wp_deleteIndirect hio hlo1 hhi1 (by decide) (fun h13 => ?_)
  rw [wp_bind]
  refine wp_deleteIndirect hio hlo1 hhi1 (by decide) (fun h14 => ?_)
  rw [wp_pure]
  refine fun _ => ⟨fun j hj => ?_,fun j hj => hlow j ((mem_direct j).mpr hj)⟩
  rcases indirect_cases j hj with rfl | rfl | rfl
  · exact h12
  · exact h13
  · exact h14

end Diverges

/-! ## The law -/

/-- Without indirect roots only the direct pointers name blocks. -/
theorem blockOf_direct {level a : ℕ} (hz : ∀ j : Fin 15, 12 ≤ j.val → v.iBlocks j = 0) (h : s.iom.BlockOf v level a) :
    level = 0 ∧ ∃ j ∈ ([0,1,2,3,4,5,6,7,8,9,10,11] : List (Fin 15)), v.iBlocks j ≠ 0 ∧ a = (v.iBlocks j).toNat := by
  induction h with
  | root j hj =>
    have hlt : j.val ≤ 11 := by
      by_contra hge
      exact hj (hz j (by omega))
    exact ⟨by omega,j,(mem_direct j).mpr hlt,hj,rfl⟩
  | child _ _ _ ih => exact absurd ih.1 (Nat.succ_ne_zero _)

theorem deleted_of_direct (hz : ∀ j : Fin 15, 12 ≤ j.val → v.iBlocks j = 0)
    (h : DirectZeroed s s' s.iom.clusterSize v [0,1,2,3,4,5,6,7,8,9,10,11]) : Deleted s s' v := by
  constructor
  · intro a i ha hlo hhi
    obtain ⟨_,j,hj,hne,rfl⟩ := blockOf_direct hz ha
    exact h.zero i ⟨j,hj,hne,hlo,hhi⟩
  · intro i hi
    exact h.frame i (fun j _ hne => hi _ _ (.root j hne))

/-- `delete_block` deletes the tree of an inode exactly when the tree has no pointer blocks and its direct blocks
have addresses that `int` can hold. -/
theorem delete_block_deletes_tree (hio : e.IoOk) (hlo : 8 ≤ s.iom.clusterSize) (hhi : s.iom.clusterSize < 2^31) :
    DeletesTree e s v ↔
      (∀ j : Fin 15, 12 ≤ j.val → v.iBlocks j = 0) ∧ ∀ j : Fin 15, j.val ≤ 11 → (v.iBlocks j).toNat < 2^31 := by
  constructor
  · rintro ⟨fuel,s',hr,_⟩
    have hio' : Env.IoOk { e with fuel := fuel } := hio
    exact (wp_deleteBlock_pointers hio' hlo hhi).elim hr rfl
  · rintro ⟨hz,hlow⟩
    have hlist : ∀ j ∈ ([0,1,2,3,4,5,6,7,8,9,10,11] : List (Fin 15)), (v.iBlocks j).toNat < 2^31 :=
      fun j hj => hlow j ((mem_direct j).mp hj)
    have hrun : wp False (deleteBlock v) (fun r s' => r = lab4Success ∧ Deleted s s' v) { e with fuel := 0 } s := by
      unfold deleteBlock
      rw [wp_bind, wp_getIom, wp_bind]
      refine (wp_deleteDirect (e := { e with fuel := 0 }) hio hhi hlist).mono ?_
      rintro r s1 ⟨rfl,h1⟩
      rw [if_neg (by decide), wp_bind]
      apply wp_deleteIndirect_zero (hz 12 (by decide))
      rw [wp_bind]
      apply wp_deleteIndirect_zero (hz 13 (by decide))
      rw [wp_bind]
      apply wp_deleteIndirect_zero (hz 14 (by decide))
      rw [wp_pure]
      exact ⟨rfl,deleted_of_direct hz h1⟩
    obtain ⟨r,s',hr,rfl,hd⟩ := wp_false.mp hrun
    exact ⟨0,s',hr,hd⟩

/-- A file with one data block on a new volume. -/
theorem delete_block_deletes_tree_blank : ∃ s0, formatAndMount quietEnv (blankDisk 80) = some (true,s0) ∧
    DeletesTree quietEnv s0 { Inode.zero with iBlocks := fun j => if j = 0 then 20480 else 0 } := by
  obtain ⟨s0,root,a,b,hrun,_,h0⟩ := blankDisk_fresh
  have hcs : s0.iom.clusterSize = 4096 := h0 ▸ fresh_clusterSize (.inl rfl)
  refine ⟨s0,hrun,(delete_block_deletes_tree quietEnv_nominal.io (by omega) (by omega)).mpr ⟨fun j hj => ?_,fun j _ => ?_⟩⟩
  · exact if_neg (fun h0 => by simp [h0] at hj)
  · dsimp only
    split <;> decide

/-- An indirect root that points to an empty pointer block is enough. -/
theorem indirect_tree_not_deleted : ∃ s0, formatAndMount quietEnv (blankDisk 80) = some (true,s0) ∧
    (∀ i < 1024, s0.iom.pointer 20480 i = 0) ∧
    ¬DeletesTree quietEnv s0 { Inode.zero with iBlocks := fun j => if j = 12 then 20480 else 0 } := by
  obtain ⟨s0,root,a,b,hrun,_,h0⟩ := blankDisk_fresh
  have hcs : s0.iom.clusterSize = 4096 := h0 ▸ fresh_clusterSize (.inl rfl)
  refine ⟨s0,hrun,fun i hi => ?_,?_⟩
  · have hcl : (openDevice (blankDisk 80).iom.dev).clusterSize = 4096 := by decide
    have hzero : u32.get (s0.iom.dev.bytes.shift 20480) (4 * i) = u32.get zeros (4 * i) := by
      refine u32.get_congr (fun n hn _ => ?_)
      rw [h0]
      change formatImage (blankDisk 80).iom.dev root (20480 + n) = 0
      unfold formatImage
      rw [hcl, splice_outside (by omega), splice_outside (by omega), splice_outside (by omega), splice_outside (by omega),
        splice_outside (by omega)]
      rfl
    rw [Iom.pointer, hzero]
    rfl
  · rintro ⟨fuel,s',hr,_⟩
    have hio : Env.IoOk { quietEnv with fuel := fuel } := quietEnv_nominal.io
    have hz := ((wp_deleteBlock_pointers hio (by omega) (by omega)).elim hr rfl).1 12 (by decide)
    exact absurd hz (by decide)

end SimpleFS
