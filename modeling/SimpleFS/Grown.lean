import SimpleFS.Steady

/-! # Volumes grown from a new one

For any sector size, what format and mount and the successful calls of the directory operations leave: the
tree is sound, names are distinct and fit their fields, every slot names a number of the inode table, files
are empty and counted by one link, and every block has one owner.
-/
namespace SimpleFS
open Bytes Machine SlotTree

/-- A name that fits and a number that has a record. -/
def Slotted (n : ℕ) (x : List UInt8) (k : ℕ) : Prop := x.length < fnameSize ∧ 2 ≤ k ∧ k < n

structure Iom.Grown (m : Iom) : Prop where
  steady : m.Steady
  unique : Unique m.tree
  /-- Block 0 belongs to the root even on a device without room for it; the others have a bit in the buffer too. -/
  neat : m.books.Neat (min (max m.maxBlock 1) (8 * m.clusterSize))
  slots : Every (Slotted m.inodeNum) m.tree

variable {m m' : Iom} {D k b i : ℕ} {x : List UInt8} {v : Inode} {d : DirEntry} {found : Bool} {q : Request} {r : ℤ}

theorem ValidName.slotted (hx : ValidName x) (hk2 : 2 ≤ k) (hk : k < m.inodeNum) : Slotted m.inodeNum x k := ⟨hx.lt,hk2,hk⟩

/-- The dot names fit. -/
theorem slotted_dots (hk2 : 2 ≤ k) (hk : k < m.inodeNum) :
    Slotted m.inodeNum dotName k ∧ Slotted m.inodeNum dotdotName k :=
  ⟨⟨by decide,hk2,hk⟩,⟨by decide,hk2,hk⟩⟩

theorem Iom.Grown.of_fixed (hs : m'.Steady) (hu : Unique m'.tree) (hf : m'.fixed = m.fixed)
    (hn : m'.books.Neat (min (max m.maxBlock 1) (8 * m.clusterSize))) (he : Every (Slotted m.inodeNum) m'.tree) : m'.Grown := by
  refine ⟨hs,hu,?_,?_⟩
  · rw [fixed_maxBlock hf, fixed_cluster hf]
    exact hn
  · rw [Iom.inodeNum, fixed_cluster hf]
    exact he

namespace Iom.Grown
variable (h : m.Grown)
include h

theorem createFile (hD : m.tree.kind D = some .dir) (hx : ValidName x) (hn : ∀ l, ¬m.tree.Binds D x l) (hk : k < m.inodeNum)
    (hbit : m.ibit k = false) (hv : FileRecord k v) (hf : m.freeScan (m.inode D) = some (found,i)) :
    (m.createFile k v (slotAddr (m.inode D) i) (DirEntry.used (UInt32.ofNat k) 1 x)).Grown := by
  have hq : (Request.create D x 0).Admissible m := ⟨hD,hx⟩
  have he : m.Ended (.create D x 0) lab4Success _ := .create (.done hn hk hbit hv hf)
  have hk3 := h.steady.sane.ledger.behind_root hbit
  have hDn := Iom.Mounted.dir_live h.steady.sane.ledger hD
  refine of_fixed (h.steady.ended hq he) (h.steady.ended_unique h.unique hq he) (fixed_createFile _ _ _ _) ?_ ?_
  · rw [books_createFile]
    exact h.neat.take hk3 (fun _ => hv.links) (fun j _ => hv.blocks j) (fun hz => absurd hv.size hz)
      h.steady.sane.ledger.clusterSize_pos
  · have hslot := hx.slotted (m := m) (by omega) hk
    have hdots := slotted_dots (k := k) (by omega) hk
    have hup := slotted_dots hDn.1 hDn.2
    rw [h.steady.sane.tree_createFile hD hk hbit hv hf (used_binding (h.steady.sane.index_lt hk) hx)]
    split
    · exact h.slots.add hdots.1 hup.2 hslot
    · exact h.slots.newNode hdots.1 hup.2

theorem makeDir (hD : m.tree.kind D = some .dir) (hx : ValidName x) (hn : ∀ l, ¬m.tree.Binds D x l) (hk : k < m.inodeNum)
    (hbit : m.ibit k = false) (hbm : b < m.maxBlock) (hb : m.dbit b = false)
    (hfirst : m.sbi.lastAllocatedBlknr < m.maxBlock → ∀ q, m.sbi.lastAllocatedBlknr ≤ q → q < b → m.dbit q = true)
    (hv : DirRecord k (m.blockAddr b) v) (hf : m.freeScan (m.inode D) = some (found,i)) :
    (m.makeDir k b v (slotAddr (m.inode D) i) (DirEntry.used (UInt32.ofNat k) 0 x) (m.inode D).iIno).Grown := by
  have hq : (Request.mkdir D x).Admissible m := ⟨hD,hx⟩
  have he : m.Ended (.mkdir D x) lab4Success _ := .mkdir (.done hn hk hbit hbm hb hfirst hv hf)
  have hk3 := h.steady.sane.ledger.behind_root hbit
  have hDn := Iom.Mounted.dir_live h.steady.sane.ledger hD
  have hle := h.steady.tidy.block_le h.steady.sane.ledger hbm hfirst
  have hnear := h.steady.tidy.block_near h.steady.sane.ledger hbm hfirst
  have hcs := h.steady.sane.mounted.cluster_le
  refine of_fixed (h.steady.ended hq he) (h.steady.ended_unique h.unique hq he) (fixed_makeDir _ _ _ _ _ _) ?_ ?_
  · have htake : (m.books.take k v).Neat (min (max m.maxBlock 1) (8 * m.clusterSize)) :=
      h.neat.take hk3 (fun ht => absurd (hv.type.symm.trans ht) (by decide)) hv.blocks
        (fun _ => ⟨b,by omega,Iom.Sane.makeDir_addr hle hv⟩) h.steady.sane.ledger.clusterSize_pos
    rw [books_makeDir, h.steady.sane.ino_dir hD]
    refine (htake.withDbit _).relink ?_ _
    exact (Books.kind_take_of_ne (Iom.Sane.dir_ne_of_clear hD hbit)).trans hD
  · have hslot := hx.slotted (m := m) (by omega) hk
    have hdots := slotted_dots (m := m) (k := k) (by omega) hk
    have hup := slotted_dots (m := m) hDn.1 hDn.2
    rw [h.steady.sane.tree_makeDir hD hk hbit hb hle hv hf (used_binding (h.steady.sane.index_lt hk) hx)]
    split
    · exact h.slots.add hdots.1 hup.2 hslot
    · exact h.slots.newNode hdots.1 hup.2

section Remove
variable (he : m.Entry D i x k)
include he

theorem unlinkEmpty (hq : (Request.unlink D x).Admissible m) (hl : (m.inode k).iLinksCount = 1)
    (hs : (m.inode k).iSize = 0) :
    (m.unlinkEmpty k (slotAddr (m.inode D) i) (m.slotEntry D i).deleted).Grown := by
  have hend : m.Ended (.unlink D x) lab4Success _ := .unlink (.empty he hl hs)
  refine of_fixed (h.steady.ended hq hend) (h.steady.ended_unique h.unique hq hend) (fixed_unlinkEmpty _ _ _) ?_ ?_
  · rw [books_unlinkEmpty]
    exact h.neat.release (h.steady.sane.entry_live he).2
  · rw [h.steady.sane.tree_unlinkEmpty he]
    exact h.slots.remove

theorem removeDir {j : ℕ} (hq : (Request.rmdir D x).Admissible m) (hk : m.tree.kind k = some .dir)
    (hempty : m.usedScan k = some (false,j)) (hb : m.books.Owns k b) :
    (m.removeDir k b (slotAddr (m.inode D) i) (m.slotEntry D i).deleted D).Grown := by
  have hend : m.Ended (.rmdir D x) lab4Success _ := .rmdir (.done he hk hempty hb)
  refine of_fixed (h.steady.ended hq hend) (h.steady.ended_unique h.unique hq hend) (fixed_removeDir _ _ _ _ _) ?_ ?_
  · rw [books_removeDir]
    refine ((h.neat.release (h.steady.sane.entry_live he).2).withDbit _).relink ?_ _
    exact (Books.kind_release_of_ne (h.steady.sane.leaf_dir he hk hempty).ne).trans he.dir
  · rw [h.steady.sane.tree_removeDir he hk hempty hb]
    exact h.slots.remove

end Remove

theorem ended (hq : q.Admissible m) (he : m.Ended q r m') : m'.Grown := by
  cases he with
  | create hc =>
    cases hc with
    | «exists» _ => exact h
    | refused _ => exact h
    | done hn hk hbit hv hf => exact h.createFile hq.1 hq.2 hn hk hbit hv hf
  | mkdir hc =>
    cases hc with
    | «exists» _ => exact h
    | done hn hk hbit hbm hb hfirst hv hf => exact h.makeDir hq.1 hq.2 hn hk hbit hbm hb hfirst hv hf
  | unlink hc =>
    have hfile := hq.2.2.2.2
    cases hc with
    | missing _ => exact h
    | refused _ => exact h
    | entry he hl => exact absurd (h.neat.links _ (hfile _ ⟨_,he.bound⟩)) hl
    | empty he hl hs => exact h.unlinkEmpty he hq hl hs
    | data he _ ho => exact absurd (h.steady.empty _ (hfile _ ⟨_,he.bound⟩)) ho.size
  | rmdir hc =>
    cases hc with
    | missing _ => exact h
    | refused _ _ => exact h
    | done he hk hempty ho => exact h.removeDir he hq hk hempty ho

end Iom.Grown

/-! ## Runs -/

/-- A successful call on a directory of the tree, with a name that fits it. -/
def Succeeds (e : Env) (s : Sys) (q : Request) (r : ℤ) : Prop := e.Nominal ∧ q.Admissible s.iom ∧ r = lab4Success

theorem fresh_grown {dev : Device} {root : Inode} {heap : ℕ → Mem} {a c : ℤ} (hsec : IsSector dev.blksszget)
    (hroot : DirRecord lab4RootIno (4 * (openDevice dev).clusterSize) root) : (freshIom dev root heap a c).Grown := by
  have ht : (freshIom dev root heap a c).tree = rootTree shape := fresh_tree hsec hroot
  have hs : (freshIom dev root heap a c).Steady := fresh_steady hsec hroot
  have ho : (freshIom dev root heap a c).books.Owns 2 0 := fresh_owns hsec hroot
  have hlive : ∀ k, (freshIom dev root heap a c).books.Live k ↔ k = 2 := fun k => fresh_live hsec
  have hfile : ∀ k, (freshIom dev root heap a c).books.kind k ≠ some .file := fun k hk => by
    obtain rfl := (hlive k).mp (Books.kind_eq_file.mp hk).1
    cases hs.sane.sound.root.symm.trans hk
  refine ⟨hs,?_,⟨fun k hk => absurd hk (hfile k),fun k hk => absurd hk (hfile k),fun k h3 hk _ => fresh_inode_behind h3 hk,
    fun k b hb => ?_,ho⟩,?_⟩
  · rw [ht]
    exact rootTree_unique dot_ne_dotdot
  · obtain rfl := (hlive k).mp hb.live
    have hcs := hs.sane.mounted.cluster_le
    rw [hb.unique_block hs.sane.ledger.clusterSize_pos ho]
    omega
  · have hdots := slotted_dots (m := freshIom dev root heap a c) (k := 2) le_rfl ho.live.2.1
    rw [ht]
    exact rootTree_every hdots.1 hdots.2

/-- Every state that successful calls reach from a formatted and mounted device. -/
theorem grown_of_reached {e : Env} {s s0 t : Sys} {ok : Bool} (he : e.Nominal) (hsec : IsSector s.iom.dev.blksszget)
    (hrun : formatAndMount e s = some (ok,s0)) (hr : Reached Request.run Succeeds s0 t) : t.iom.Grown := by
  have h0 : s0.iom.Grown := by
    refine (wp_formatAndMount (u := True) (Q := fun _ s0 => s0.iom.Grown) he hsec (fun s1 root a c hroot h1 => ?_)).elim hrun
    rw [h1]
    exact fresh_grown hsec hroot
  refine hr.invariant (I := fun t => t.iom.Grown) h0 (fun e s q r s' hs hP hq => ?_)
  exact (Request.wp_run (Q := fun _ s' => s'.iom.Grown) hP.1 hs.steady.sane hP.2.1
    (fun _ _ _ hend hs' => hs' ▸ hs.ended hP.2.1 hend)).elim hq

end SimpleFS
