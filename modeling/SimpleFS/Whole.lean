import SimpleFS.Neat
import SimpleFS.Fixed

/-! # Whole volumes

A sane volume of 4096-byte clusters in which names are distinct, every node is held, parents are right
and the books are neat. Every outcome of the four operations keeps all of it together: a directory of
such a volume always has a free slot, because the entries outnumber the inodes.
-/
namespace SimpleFS
open Bytes Machine SlotTree

structure Iom.Whole (m : Iom) : Prop where
  sane : m.Sane
  cluster : m.clusterSize = 4096
  blocks : 2 ≤ m.maxBlock ∧ m.maxBlock ≤ 8 * 4096
  unique : Unique m.tree
  held : Held shape m.tree
  upward : Upward shape m.tree
  neat : m.books.Neat m.maxBlock

variable {m m' : Iom} {D k b i : ℕ} {x : List UInt8} {v : Inode} {d : DirEntry} {found : Bool}

namespace Iom.Whole
variable (h : m.Whole)
include h

/-- A creation always finds a slot. -/
theorem found_slot (hD : m.tree.kind D = some .dir) (hf : m.freeScan (m.inode D) = some (found,i)) : found = true :=
  h.sane.found_slot h.cluster hD hf

theorem block_le (hb : b < m.maxBlock) : m.blockAddr b + m.clusterSize ≤ 2^31 := by
  have := h.blocks.2
  unfold Iom.blockAddr
  rw [h.cluster]
  omega

/-- A change that keeps geometry and adds one bound node. -/
theorem add_node {c : Kind} (hs : m'.Sane) (hfix : m'.fixed = m.fixed)
    (hv : Vacant shape m.tree k D i) (hx : ∀ l, ¬m.tree.Binds D x l) (ht : m'.tree = add shape m.tree c k D i x)
    (hn : m'.books.Neat m.maxBlock) : m'.Whole := by
  refine ⟨hs,(fixed_cluster hfix).trans h.cluster,(fixed_maxBlock hfix).symm ▸ h.blocks,?_,?_,?_,(fixed_maxBlock hfix).symm ▸ hn⟩
  · rw [ht]
    exact hv.unique dot_ne_dotdot h.unique hx
  · rw [ht]
    exact hv.held h.sane.sound h.held
  · rw [ht]
    exact hv.upward h.sane.sound h.upward

theorem remove_node (hs : m'.Sane) (hfix : m'.fixed = m.fixed)
    (hl : Leaf m.tree k D i x) (ht : m'.tree = m.tree.remove k D i) (hn : m'.books.Neat m.maxBlock) : m'.Whole := by
  refine ⟨hs,(fixed_cluster hfix).trans h.cluster,(fixed_maxBlock hfix).symm ▸ h.blocks,?_,?_,?_,(fixed_maxBlock hfix).symm ▸ hn⟩
  · rw [ht]
    exact Leaf.unique h.unique
  · rw [ht]
    exact hl.held h.held
  · rw [ht]
    exact hl.upward h.sane.sound h.upward

theorem createFile (hD : m.tree.kind D = some .dir) (hk : k < m.inodeNum) (hbit : m.ibit k = false)
    (hv : FileRecord k v) (hf : m.freeScan (m.inode D) = some (found,i)) (hd : d.binding = some (x,k))
    (hx : ∀ l, ¬m.tree.Binds D x l) : (m.createFile k v (slotAddr (m.inode D) i) d).Whole := by
  obtain rfl := h.found_slot hD hf
  have ht := h.sane.tree_createFile hD hk hbit hv hf hd
  rw [if_pos rfl] at ht
  refine h.add_node (h.sane.createFile hD hk hbit hv hf hd) (fixed_createFile _ _ _ _)
    (h.sane.vacant hD hbit hf) hx ht ?_
  rw [books_createFile]
  exact h.neat.take (h.sane.ledger.behind_root hbit) (fun _ => hv.links) (fun j _ => hv.blocks j) (fun hn => absurd hv.size hn)
    h.sane.ledger.clusterSize_pos

theorem makeDir (hD : m.tree.kind D = some .dir) (hk : k < m.inodeNum) (hbit : m.ibit k = false)
    (hbm : b < m.maxBlock) (hb : m.dbit b = false) (hv : DirRecord k (m.blockAddr b) v)
    (hf : m.freeScan (m.inode D) = some (found,i)) (hd : d.binding = some (x,k)) (hx : ∀ l, ¬m.tree.Binds D x l) :
    (m.makeDir k b v (slotAddr (m.inode D) i) d (m.inode D).iIno).Whole := by
  obtain rfl := h.found_slot hD hf
  have hle := h.block_le hbm
  have hk3 := h.sane.ledger.behind_root hbit
  have ht := h.sane.tree_makeDir hD hk hbit hb hle hv hf hd
  rw [if_pos rfl] at ht
  refine h.add_node (h.sane.makeDir hD hk hbit hb hle hv hf hd) (fixed_makeDir _ _ _ _ _ _)
    (h.sane.vacant hD hbit hf) hx ht ?_
  have htake : (m.books.take k v).Neat m.maxBlock :=
    h.neat.take hk3 (fun ht => absurd (hv.type.symm.trans ht) (by decide)) hv.blocks
      (fun _ => ⟨b,hbm,Iom.Sane.makeDir_addr hle hv⟩) h.sane.ledger.clusterSize_pos
  rw [books_makeDir, h.sane.ino_dir hD]
  refine (htake.withDbit _).relink ?_ _
  exact (Books.kind_take_of_ne (Iom.Sane.dir_ne_of_clear hD hbit)).trans hD

section Remove
variable (he : m.Entry D i x k)
include he

theorem unlinkEmpty (hk : m.tree.kind k = some .file) : (m.unlinkEmpty k (slotAddr (m.inode D) i) d.deleted).Whole := by
  refine h.remove_node (h.sane.unlinkEmpty he hk) (fixed_unlinkEmpty _ _ _) (h.sane.leaf_file he hk)
    (h.sane.tree_unlinkEmpty he) ?_
  rw [books_unlinkEmpty]
  exact h.neat.release (h.sane.entry_live he).2

theorem unlinkFile (hk : m.tree.kind k = some .file) (hb : m.books.Owns k b) :
    (m.unlinkFile k b (slotAddr (m.inode D) i) d.deleted).Whole := by
  refine h.remove_node (h.sane.unlinkFile he hk hb) (fixed_unlinkFile _ _ _ _) (h.sane.leaf_file he hk)
    (h.sane.tree_unlinkFile he hk hb) ?_
  rw [books_unlinkFile]
  exact (h.neat.withDbit _).release (h.sane.entry_live he).2

theorem removeDir {j : ℕ} (hk : m.tree.kind k = some .dir) (hempty : m.usedScan k = some (false,j))
    (hb : m.books.Owns k b) : (m.removeDir k b (slotAddr (m.inode D) i) d.deleted D).Whole := by
  refine h.remove_node (h.sane.removeDir he hk hempty hb D) (fixed_removeDir _ _ _ _ _)
    (h.sane.leaf_dir he hk hempty) (h.sane.tree_removeDir he hk hempty hb D) ?_
  rw [books_removeDir]
  refine ((h.neat.release (h.sane.entry_live he).2).withDbit _).relink ?_ _
  exact (Books.kind_release_of_ne (h.sane.leaf_dir he hk hempty).ne).trans he.dir

end Remove

/-! ## Outcomes -/

theorem created {r : ℤ × Option Inode} (hD : m.tree.kind D = some .dir) (hx : ValidName x) (hc : m.Created D x r m') :
    m'.Whole := by
  cases hc with
  | «exists» _ => exact h
  | refused _ => exact h
  | done hn hk hbit hv hf => exact h.createFile hD hk hbit hv hf (used_binding (h.sane.index_lt hk) hx) hn

theorem madeDir {r : ℤ} (hD : m.tree.kind D = some .dir) (hx : ValidName x) (hc : m.MadeDir D x r m') : m'.Whole := by
  cases hc with
  | «exists» _ => exact h
  | done hn hk hbit hbm hb _ hv hf => exact h.makeDir hD hk hbit hbm hb hv hf (used_binding (h.sane.index_lt hk) hx) hn

theorem unlinked {r : ℤ} (hfiles : ∀ k, m.tree.Binds D x k → m.tree.kind k = some .file) (hc : m.Unlinked D x r m') :
    m'.Whole := by
  cases hc with
  | missing _ => exact h
  | refused _ => exact h
  | entry he hl => exact absurd (h.neat.links _ (hfiles _ ⟨_,he.bound⟩)) hl
  | empty he _ _ => exact h.unlinkEmpty he (hfiles _ ⟨_,he.bound⟩)
  | data he _ ho => exact h.unlinkFile he (hfiles _ ⟨_,he.bound⟩) ho

theorem removedDir {r : ℤ} (hc : m.RemovedDir D x r m') : m'.Whole := by
  cases hc with
  | missing _ => exact h
  | refused _ _ => exact h
  | done he hk hempty ho => exact h.removeDir he hk hempty ho

end Iom.Whole

/-! ## A new volume -/

theorem fresh_whole {d : Device} {root : Inode} {heap : ℕ → Mem} {a b : ℤ} (hsec : d.blksszget = 512)
    (hroot : DirRecord lab4RootIno (4 * (openDevice d).clusterSize) root)
    (hlo : 2 ≤ (freshIom d root heap a b).maxBlock) (hhi : (freshIom d root heap a b).maxBlock ≤ 8 * 4096) :
    (freshIom d root heap a b).Whole := by
  have hs : IsSector d.blksszget := .inl hsec
  have ht : (freshIom d root heap a b).tree = rootTree shape := fresh_tree hs hroot
  have hcs : (openDevice d).clusterSize = 4096 := by rw [(openDevice_cluster hs).1, hsec]
  have hlive : ∀ k, (freshIom d root heap a b).books.Live k ↔ k = 2 := fun k => fresh_live hs
  have hl : (freshIom d root heap a b).books.Ledger := fresh_ledger hs hroot
  refine ⟨fresh_sane hs hroot,hcs,⟨hlo,hhi⟩,?_,?_,?_,?_⟩
  · rw [ht]
    exact rootTree_unique dot_ne_dotdot
  · rw [ht]
    exact rootTree_held
  · rw [ht]
    exact rootTree_upward
  · have hfile : ∀ k, (freshIom d root heap a b).books.kind k ≠ some .file := fun k hk => by
      obtain rfl := (hlive k).mp (Books.kind_eq_file.mp hk).1
      exact absurd (hl.root.symm.trans (Books.kind_eq_file.mp hk).2) (by decide)
    refine ⟨fun k hk => absurd hk (hfile k),fun k hk => absurd hk (hfile k),fun k h3 hk _ => fresh_inode_behind h3 hk,
      fun k c ho => ?_,fresh_owns hs hroot⟩
    · obtain rfl := (hlive k).mp ho.live
      rw [ho.unique_block hl.clusterSize_pos (fresh_owns hs hroot)]
      omega

end SimpleFS
