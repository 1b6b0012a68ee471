import SimpleFS.Machine.Namespace
import SimpleFS.Mirrored
import SimpleFS.Grown
import SimpleFS.Whole
import SimpleFS.WriteEffects

/-! # Regular volumes

What a volume with sectors of 512 bytes keeps whatever is created, removed, renamed and written: the tree is
sound, the books are neat, data fits its block and the metadata is on the device. Unlike on a whole volume parent
slots may be stale.
-/
namespace SimpleFS
open Bytes Machine SlotTree

/-! ## Records in use -/

namespace Books
variable {c : Books} {n k l b : ℕ} {v : Inode} {P : Inode → Prop}

def EachLive (c : Books) (P : Inode → Prop) : Prop := ∀ k, c.Live k → P (c.inode k)

namespace EachLive
variable (h : c.EachLive P)
include h

theorem store (hv : P v) : (c.store k v).EachLive P := by
  intro l hl
  by_cases hlk : l = k
  · subst hlk
    rw [store_self]
    exact hv
  · rw [store_of_ne hlk]
    exact h l hl

theorem take (hv : P v) : (c.take k v).EachLive P := by
  intro l hl
  rcases live_take.mp hl with ⟨rfl,_⟩ | ⟨hlk,hl⟩
  · rw [show (c.take l v).inode l = v from store_self]
    exact hv
  · rw [take_inode hlk]
    exact h l hl

theorem release : (c.release k).EachLive P := by
  intro l hl
  obtain ⟨hlk,hl⟩ := live_release.mp hl
  rw [release_inode hlk]
  exact h l hl

/-- A link count does not matter. -/
theorem relink (hP : ∀ (v : Inode) n, P v → P { v with iLinksCount := n }) (hk : c.Live k) (f : UInt32 → UInt32) :
    (c.relink f k).EachLive P := h.store (hP _ _ (h k hk))

end EachLive

/-! ## Blocks in use -/

/-- Every block below `n` with its bit set has an owner. -/
def Attributed (c : Books) (n : ℕ) : Prop := ∀ b, b < n → c.dbit b = true → ∃ k, c.Owns k b

namespace Attributed
variable (h : c.Attributed n)
include h

/-- The owner of a block stays as it was. -/
theorem congr {c' : Books} (hd : ∀ b, b < n → c'.dbit b = true → c.dbit b = true)
    (ho : ∀ k b, b < n → c'.dbit b = true → c.Owns k b → ∃ l, c'.Owns l b) : c'.Attributed n := fun b hb hbit => by
  obtain ⟨k,hk⟩ := h b hb (hd b hb hbit)
  exact ho k b hb hbit hk

theorem take (hk : c.ibit k = false) : (c.take k v).Attributed n := by
  refine h.congr (fun _ _ hbit => hbit) (fun l b _ _ ho => ⟨l,(owns_take ?_).mpr ho⟩)
  rintro rfl
  exact Bool.false_ne_true (hk.symm.trans ho.live.2.2)

theorem own (ho : c.Owns k b) : (c.own b).Attributed n := by
  intro b' hb' hbit
  by_cases hbb : b' = b
  · exact ⟨k,owns_withDbit.mpr (hbb ▸ ho)⟩
  · obtain ⟨l,hl⟩ := h b' hb' ((Function.update_of_ne hbb _ _).symm.trans hbit)
    exact ⟨l,owns_withDbit.mpr hl⟩

theorem disown : (c.disown b).Attributed n := by
  intro b' hb' hbit
  have hbb : b' ≠ b := by
    rintro rfl
    exact Bool.false_ne_true ((Function.update_self ..).symm.trans hbit)
  obtain ⟨l,hl⟩ := h b' hb' ((Function.update_of_ne hbb _ _).symm.trans hbit)
  exact ⟨l,owns_withDbit.mpr hl⟩

/-- A record that owns nothing, or nothing that is still in use. -/
theorem release (hk : ∀ b, b < n → c.dbit b = true → ¬c.Owns k b) : (c.release k).Attributed n := by
  refine h.congr (fun _ _ hbit => hbit) (fun l b hb hbit ho => ⟨l,owns_release.mpr ⟨?_,ho⟩⟩)
  rintro rfl
  exact hk b hb hbit ho

theorem relink (f : UInt32 → UInt32) : (c.relink f k).Attributed n := by
  refine h.congr (fun _ _ hbit => hbit) (fun l b _ _ ho => ⟨l,?_⟩)
  by_cases hlk : l = k
  · subst hlk
    refine ⟨ho.live,?_,?_⟩
    · rw [relink_self]
      exact ho.size
    · rw [addr, relink_self]
      exact ho.addr
  · exact (owns_relink hlk).mpr ho

/-- A file gets data in its own block, or a free block and its first data. -/
theorem storeFile (hcs : 0 < c.clusterSize) (hlive : c.Live k) (hsize : v.iSize ≠ 0) (haddr : (v.iBlocks 0).toNat = c.blockAddr b)
    (hfree : c.Owns k b ∨ (c.inode k).iSize = 0 ∧ c.dbit b = false) : ((c.store k v).own b).Attributed n := by
  have hself : (c.store k v).Owns k b := by
    refine ⟨hlive,?_,?_⟩
    · rw [store_self]
      exact hsize
    · rw [addr, store_self]
      exact haddr
  refine Attributed.own (h.congr (fun _ _ hbit => hbit) (fun l b' _ _ ho => ?_)) hself
  by_cases hlk : l = k
  · subst hlk
    rcases hfree with hown | ⟨hz,_⟩
    · rw [ho.unique_block hcs hown]
      exact ⟨l,hself⟩
    · exact absurd hz ho.size
  · exact ⟨l,(owns_congr (c := c) (show (c.store k v).Live l ↔ c.Live l from Iff.rfl) (store_of_ne hlk) rfl).mpr ho⟩

end Attributed

end Books

/-- The record names no block as long as there are no data, and has no more data than a cluster of 4096 bytes. -/
structure Inode.Bounded (v : Inode) : Prop where
  empty : v.iSize = 0 → v.iBlocks 0 = 0
  nonneg : 0 ≤ v.iSize.toInt
  le : v.iSize.toInt ≤ 4096

theorem Inode.Bounded.relink {v : Inode} (h : v.Bounded) (n : UInt32) : ({ v with iLinksCount := n } : Inode).Bounded := ⟨h.1,h.2,h.3⟩

theorem FileRecord.bounded {k : ℕ} {v : Inode} (h : FileRecord k v) : v.Bounded := by
  refine ⟨fun _ => h.blocks 0,?_,?_⟩ <;> rw [h.size] <;> decide

theorem DirRecord.bounded {k a : ℕ} {v : Inode} (h : DirRecord k a v) : v.Bounded := by
  refine ⟨fun hz => ?_,?_,?_⟩
  · rw [h.size] at hz
    exact absurd hz (by decide)
  · rw [h.size]
    decide
  · rw [h.size]
    decide

variable {m m' : Iom} {D E k b i j n : ℕ} {x y : List UInt8} {v : Inode} {d : DirEntry} {found : Bool}

theorem FileRecord.fits (h : FileRecord k v) (hk : k < n) (hn : n ≤ 2^32) : v.Fits n := by
  refine ⟨?_,fun j _ => h.blocks j⟩
  rw [h.ino, UInt32.toNat_ofNat_of_lt' (by rw [UInt32.size]; omega)]
  exact hk

theorem DirRecord.fits {a : ℕ} (h : DirRecord k a v) (hk : k < n) (hn : n ≤ 2^32) : v.Fits n := by
  refine ⟨?_,h.blocks⟩
  rw [h.ino, UInt32.toNat_ofNat_of_lt' (by rw [UInt32.size]; omega)]
  exact hk

/-! ## The hint -/

namespace Iom.Hinted
variable (h : m.Hinted n)
include h

theorem flushes : m.flushAll.Hinted n ∧ m.flushSb.flushIbmap.flushItble.Hinted n ∧ m.flushSb.flushItble.flushDbmap.Hinted n :=
  ⟨h.onDev ((OnDev.writeDev _ _ _ _).trans ((OnDev.writeDev _ _ _ _).trans ((OnDev.writeDev _ _ _ _).trans (.writeDev _ _ _ _)))),
    h.onDev ((OnDev.writeDev _ _ _ _).trans ((OnDev.writeDev _ _ _ _).trans (.writeDev _ _ _ _))),
    h.onDev ((OnDev.writeDev _ _ _ _).trans ((OnDev.writeDev _ _ _ _).trans (.writeDev _ _ _ _)))⟩

theorem createFile (hk : k < m.inodeNum) (hv : FileRecord k v) (a : ℕ) (d : DirEntry) : (m.createFile k v a d).Hinted n := by
  have hnum := h.mounted.inodeNum_le
  have hfits : v.Fits m.inodeNum := hv.fits hk (by omega)
  have hset : ((m.takeInode k).setInode k v).Hinted n := (h.takeInode k).setInode hfits k
  exact ((hset.writeDev _ _ _).addFreeInodes _).flushes.2.1

theorem makeDir (hk : k < m.inodeNum) (hb : b < n) (hv : DirRecord k (m.blockAddr b) v) {par : UInt32}
    (hpar : par.toNat < m.inodeNum) (a : ℕ) (d : DirEntry) : (m.makeDir k b v a d par).Hinted n := by
  have hnum := h.mounted.inodeNum_le
  have htake : (((m.takeInode k).takeBlock b).setBlknr b).Hinted n := ((h.takeInode k).takeBlock b).setBlknr hb
  have hn : (((m.takeInode k).takeBlock b).setBlknr b).inodeNum = m.inodeNum := by simp [Iom.inodeNum]
  have hset : ((((m.takeInode k).takeBlock b).setBlknr b).setInode k v).Hinted n := by
    refine htake.setInode ?_ k
    rw [hn]
    exact hv.fits hk (by omega)
  have hdata := (hset.writeDev a lab4DirEntrySize (dirEntryCodec.enc d)).writeDev (m.blockAddr b) m.clusterSize
    (newDirArea (UInt32.ofNat k) par)
  refine (hdata.addLink (· + 1) ?_).flushes.1
  simpa [Iom.inodeNum] using hpar

theorem unlinkEmpty (k a : ℕ) (d : DirEntry) : (m.unlinkEmpty k a d).Hinted n := ((h.freeInode k).writeDev _ _ _).flushes.1

theorem wipeBlock (b : ℕ) : (m.wipeBlock b).Hinted n := (h.freeBlock b).writeDev _ _ _

theorem unlinkFile (k b a : ℕ) (d : DirEntry) : (m.unlinkFile k b a d).Hinted n :=
  (((h.wipeBlock b).freeInode k).writeDev _ _ _).flushes.1

theorem removeDir (k b a : ℕ) (d : DirEntry) {par : ℕ} (hpar : par < m.inodeNum) : (m.removeDir k b a d par).Hinted n :=
  ((((h.freeInode k).wipeBlock b).writeDev _ _ _).addLink _ hpar).flushes.1

theorem renameEntry (p : Inode) (i : ℕ) (x : List UInt8) : (m.renameEntry p i x).Hinted n := h.writeDev _ _ _

theorem moveEntry (p t : Inode) (i j : ℕ) (found : Bool) : (m.moveEntry p i t found j).Hinted n := by
  unfold Iom.moveEntry
  cases found with
  | false => exact h.writeDev _ _ _
  | true =>
    have hw : (m.writeEntry (slotAddr t j) { m.slotEntry p.iIno.toNat i with dFlag := lab4DirUsed }).Hinted n := h.writeDev _ _ _
    exact hw.writeDev _ _ _

theorem finishWrite (hv : v.Fits m.inodeNum) : (m.finishWrite v).Hinted n := (h.setInode hv _).flushes.2.2

end Iom.Hinted

/-! ## The invariant -/

structure Iom.Regular (m : Iom) : Prop where
  sane : m.Sane
  cluster : m.clusterSize = 4096
  blocks : m.maxBlock ≤ 8 * 4096
  unique : Unique m.tree
  grounded : Grounded shape m.tree
  slots : Every (Slotted m.inodeNum) m.tree
  neat : m.books.Neat m.maxBlock
  attributed : m.books.Attributed m.maxBlock
  bounded : m.books.EachLive Inode.Bounded
  hinted : m.Hinted m.maxBlock
  mirrored : m.Mirrored

namespace Iom.Regular
variable (h : m.Regular)
include h

theorem hintKept : m.HintKept m.maxBlock := h.hinted.hintKept h.mirrored.sb h.mirrored.itble

theorem block_le (hb : b < m.maxBlock) : m.blockAddr b + m.clusterSize ≤ 2^31 := by
  have := h.blocks
  unfold Iom.blockAddr
  rw [h.cluster]
  omega

theorem found_slot (hD : m.tree.kind D = some .dir) (hf : m.freeScan (m.inode D) = some (found,i)) : found = true :=
  h.sane.found_slot h.cluster hD hf

/-- Every record names an address that `int` can hold. -/
theorem addrOk : m.AddrOk := by
  intro k h2 hk
  by_cases hb : m.ibit k = true
  · have hlive : m.books.Live k := ⟨h2,hk,hb⟩
    by_cases hs : (m.inode k).iSize = 0
    · have hz : (m.inode k).iBlocks 0 = 0 := (h.bounded k hlive).empty hs
      rw [Iom.dataAddr, hz]
      decide
    · obtain ⟨b,ho,hle,_⟩ := h.sane.ledger.own k hlive hs
      have haddr : m.dataAddr k = m.books.blockAddr b := ho.addr
      have hcs := h.sane.ledger.clusterSize_pos
      omega
  · have hz : (m.inode k).iBlocks 0 = 0 := (h.sane.ledger.free k h2 hk (Bool.not_eq_true _ ▸ hb)).block
    rw [Iom.dataAddr, hz]
    decide

theorem change (hs : m'.Sane) (hfix : m'.fixed = m.fixed) (hu : Unique m'.tree) (hg : Grounded shape m'.tree)
    (he : Every (Slotted m.inodeNum) m'.tree) (hn : m'.books.Neat m.maxBlock) (ha : m'.books.Attributed m.maxBlock)
    (hb : m'.books.EachLive Inode.Bounded) (hh : m'.Hinted m.maxBlock) (hm : m'.Mirrored) : m'.Regular := by
  have hmax := fixed_maxBlock hfix
  have hnum : m'.inodeNum = m.inodeNum := by
    rw [Iom.inodeNum, fixed_cluster hfix]
    rfl
  exact ⟨hs,(fixed_cluster hfix).trans h.cluster,hmax.symm ▸ h.blocks,hu,hg,hnum.symm ▸ he,hmax.symm ▸ hn,hmax.symm ▸ ha,hb,
    hmax.symm ▸ hh,hm⟩

/-! ## Creations -/

section Create
variable (hD : m.tree.kind D = some .dir) (hk : k < m.inodeNum) (hbit : m.ibit k = false)
  (hf : m.freeScan (m.inode D) = some (found,i)) (hd : d.binding = some (x,k))
include hD hk hbit hf hd

omit hf hd in
/-- A new node fits its slots. -/
theorem slots_add {c : Kind} (hx : ValidName x) : Every (Slotted m.inodeNum) (add shape m.tree c k D i x) := by
  have hk2 : 2 ≤ k := (Nat.le_succ 2).trans (h.sane.ledger.behind_root hbit)
  have hDn := Iom.Mounted.dir_live h.sane.ledger hD
  exact h.slots.add (slotted_dots hk2 hk).1 (slotted_dots hDn.1 hDn.2).2 (hx.slotted hk2 hk)

theorem tree_createFile (hv : FileRecord k v) :
    (m.createFile k v (slotAddr (m.inode D) i) d).tree = add shape m.tree .file k D i x := by
  rw [h.sane.tree_createFile hD hk hbit hv hf hd, if_pos (h.found_slot hD hf)]

omit hd hk in
theorem vacant : Vacant shape m.tree k D i := by
  obtain rfl := h.found_slot hD hf
  exact h.sane.vacant hD hbit hf

theorem createFile (hv : FileRecord k v) (hx : ValidName x) (hn : ∀ l, ¬m.tree.Binds D x l) :
    (m.createFile k v (slotAddr (m.inode D) i) d).Regular := by
  have ht := h.tree_createFile hD hk hbit hf hd hv
  refine h.change (h.sane.createFile hD hk hbit hv hf hd) (fixed_createFile _ _ _ _) ?_ ?_ ?_ ?_ ?_ ?_
    (h.hinted.createFile hk hv _ _) (h.mirrored.createFile h.sane.mounted (h.sane.slotAddr_le hD))
  · rw [ht]
    exact (h.vacant hD hbit hf).unique dot_ne_dotdot h.unique hn
  · rw [ht]
    exact h.grounded.add h.sane.sound (h.vacant hD hbit hf)
  · rw [ht]
    exact h.slots_add hD hk hbit hx
  · rw [books_createFile]
    exact h.neat.take (h.sane.ledger.behind_root hbit) (fun _ => hv.links) (fun j _ => hv.blocks j) (fun hz => absurd hv.size hz)
      h.sane.ledger.clusterSize_pos
  · rw [books_createFile]
    exact h.attributed.take hbit
  · rw [books_createFile]
    exact h.bounded.take hv.bounded

variable (hbm : b < m.maxBlock) (hb : m.dbit b = false) (hv : DirRecord k (m.blockAddr b) v)
include hbm hb hv

theorem tree_makeDir : (m.makeDir k b v (slotAddr (m.inode D) i) d (m.inode D).iIno).tree = add shape m.tree .dir k D i x := by
  rw [h.sane.tree_makeDir hD hk hbit hb (h.block_le hbm) hv hf hd, if_pos (h.found_slot hD hf)]

theorem makeDir (hx : ValidName x) (hn : ∀ l, ¬m.tree.Binds D x l) :
    (m.makeDir k b v (slotAddr (m.inode D) i) d (m.inode D).iIno).Regular := by
  have hino := h.sane.ino_dir hD
  have hDlive := Iom.Mounted.dir_live h.sane.ledger hD
  have hle := h.block_le hbm
  have htake : (m.books.take k v).Neat m.maxBlock :=
    h.neat.take (h.sane.ledger.behind_root hbit) (fun ht => absurd (hv.type.symm.trans ht) (by decide)) hv.blocks
      (fun _ => ⟨b,hbm,Iom.Sane.makeDir_addr hle hv⟩) h.sane.ledger.clusterSize_pos
  have ht := h.tree_makeDir hD hk hbit hf hd hbm hb hv
  refine h.change (h.sane.makeDir hD hk hbit hb hle hv hf hd) (fixed_makeDir _ _ _ _ _ _) ?_ ?_ ?_ ?_ ?_ ?_
    (h.hinted.makeDir hk hbm hv (hino.symm ▸ hDlive.2) _ _) h.sane.mounted.mirrored_makeDir
  · rw [ht]
    exact (h.vacant hD hbit hf).unique dot_ne_dotdot h.unique hn
  · rw [ht]
    exact h.grounded.add h.sane.sound (h.vacant hD hbit hf)
  · rw [ht]
    exact h.slots_add hD hk hbit hx
  · rw [books_makeDir, hino]
    refine (htake.withDbit _).relink ?_ _
    exact (Books.kind_take_of_ne (Iom.Sane.dir_ne_of_clear hD hbit)).trans hD
  · rw [books_makeDir, hino]
    have hk2 : 2 ≤ k := (Nat.le_succ 2).trans (h.sane.ledger.behind_root hbit)
    have hself : (m.books.take k v).inode k = v := Books.store_self
    have howns : (m.books.take k v).Owns k b := by
      refine ⟨Books.live_take.mpr (.inl ⟨rfl,hk2,hk⟩),?_,?_⟩
      · rw [hself, hv.size]
        decide
      · rw [Books.addr, hself]
        exact Iom.Sane.makeDir_addr hle hv
    exact ((h.attributed.take hbit).own howns).relink _
  · rw [books_makeDir, hino]
    refine Books.EachLive.relink (c := (m.books.take k v).own b) ?_ (fun _ _ hP => hP.relink _) ?_ _
    · exact h.bounded.take hv.bounded
    · exact (Books.live_take (v := v)).mpr (.inr ⟨Iom.Sane.dir_ne_of_clear hD hbit,((Books.kind_eq_dir h.sane.ledger).mp hD).1⟩)

end Create

/-! ## Removals -/

/-- What a record in use names can be given back when the counters have room. -/
theorem releasable (hk : m.books.Live k) (hroom : m.InodeRoom 1 ∧ m.BlockRoom 1) : m.Releasable (m.inode k) := by
  refine ⟨hroom.1,fun _ => hroom.2,fun hz b haddr => ?_⟩
  have hb := h.neat.below k b ⟨hk,hz,haddr⟩
  have hmax := h.blocks
  rw [h.cluster]
  omega

/-- Once its block is given up a record owns none that is in use. -/
theorem disowned (hb : m.books.Owns k b) : ∀ b', b' < n → (m.books.disown b).dbit b' = true → ¬(m.books.disown b).Owns k b' := by
  intro b' _ hbit ho
  obtain rfl := (Books.owns_withDbit.mp ho).unique_block h.sane.ledger.clusterSize_pos hb
  exact Bool.false_ne_true ((Function.update_self ..).symm.trans hbit)

section Remove
variable (he : m.Entry D i x k)
include he

theorem unlinkEmpty (hk : m.tree.kind k = some .file) (hz : (m.inode k).iSize = 0) :
    (m.unlinkEmpty k (slotAddr (m.inode D) i) d.deleted).Regular := by
  refine h.change (h.sane.unlinkEmpty he hk) (fixed_unlinkEmpty _ _ _) ?_ ?_ ?_ ?_ ?_ ?_ (h.hinted.unlinkEmpty _ _ _)
    h.sane.mounted.mirrored_unlinkEmpty
  · rw [h.sane.tree_unlinkEmpty he]
    exact Leaf.unique h.unique
  · rw [h.sane.tree_unlinkEmpty he]
    exact h.grounded.remove h.sane.sound h.unique (h.sane.leaf_file he hk)
  · rw [h.sane.tree_unlinkEmpty he]
    exact h.slots.remove
  · rw [books_unlinkEmpty]
    exact h.neat.release (h.sane.entry_live he).2
  · rw [books_unlinkEmpty]
    exact h.attributed.release (fun _ _ _ ho => ho.size hz)
  · rw [books_unlinkEmpty]
    exact h.bounded.release

theorem unlinkFile (hk : m.tree.kind k = some .file) (hb : m.books.Owns k b) :
    (m.unlinkFile k b (slotAddr (m.inode D) i) d.deleted).Regular := by
  refine h.change (h.sane.unlinkFile he hk hb) (fixed_unlinkFile _ _ _ _) ?_ ?_ ?_ ?_ ?_ ?_ (h.hinted.unlinkFile _ _ _ _)
    h.sane.mounted.mirrored_unlinkFile
  · rw [h.sane.tree_unlinkFile he hk hb]
    exact Leaf.unique h.unique
  · rw [h.sane.tree_unlinkFile he hk hb]
    exact h.grounded.remove h.sane.sound h.unique (h.sane.leaf_file he hk)
  · rw [h.sane.tree_unlinkFile he hk hb]
    exact h.slots.remove
  · rw [books_unlinkFile]
    exact (h.neat.withDbit _).release (h.sane.entry_live he).2
  · rw [books_unlinkFile]
    exact h.attributed.disown.release (h.disowned hb)
  · rw [books_unlinkFile]
    exact Books.EachLive.release (c := m.books.disown b) h.bounded

theorem removeDir (hk : m.tree.kind k = some .dir) (hempty : m.usedScan k = some (false,j)) (hb : m.books.Owns k b) :
    (m.removeDir k b (slotAddr (m.inode D) i) d.deleted D).Regular := by
  have hDk := (h.sane.leaf_dir he hk hempty).ne
  refine h.change (h.sane.removeDir he hk hempty hb D) (fixed_removeDir _ _ _ _ _) ?_ ?_ ?_ ?_ ?_ ?_
    (h.hinted.removeDir _ _ _ _ (Iom.Mounted.dir_live h.sane.ledger he.dir).2) h.sane.mounted.mirrored_removeDir
  · rw [h.sane.tree_removeDir he hk hempty hb D]
    exact Leaf.unique h.unique
  · rw [h.sane.tree_removeDir he hk hempty hb D]
    exact h.grounded.remove h.sane.sound h.unique (h.sane.leaf_dir he hk hempty)
  · rw [h.sane.tree_removeDir he hk hempty hb D]
    exact h.slots.remove
  · rw [books_removeDir]
    refine ((h.neat.release (h.sane.entry_live he).2).withDbit _).relink ?_ _
    exact (Books.kind_release_of_ne hDk).trans he.dir
  · rw [books_removeDir]
    exact (h.attributed.disown.release (h.disowned hb)).relink _
  · rw [books_removeDir]
    refine Books.EachLive.relink (c := (m.books.release k).disown b) ?_ (fun _ _ hP => hP.relink _) ?_ _
    · exact h.bounded.release
    · exact Books.live_release.mpr ⟨hDk,((Books.kind_eq_dir h.sane.ledger).mp he.dir).1⟩

/-! ## Renames -/

/-- The node an entry names has a record. -/
theorem entry_slotted (hy : ValidName y) : Slotted m.inodeNum y k :=
  have hlive := (h.sane.entry_live he).1
  hy.slotted hlive.1 hlive.2.1

theorem renameEntry (hy : ValidName y) (hn : ∀ l, ¬m.tree.Binds D y l) : (m.renameEntry (m.inode D) i y).Regular := by
  refine h.change (h.sane.renameEntry he hy) (fixed_renameEntry _ _ _) ?_ ?_ ?_ ?_ ?_ ?_ (h.hinted.renameEntry _ _ _)
    (h.mirrored.renameEntry (h.sane.slotAddr_le he.dir))
  · rw [h.sane.tree_renameEntry he hy]
    exact Movable.unique h.unique (fun j l hs => absurd ⟨j,hs⟩ (hn l))
  · rw [h.sane.tree_renameEntry he hy]
    obtain ⟨p,hD⟩ := h.grounded D (by rw [he.dir]; exact Option.some_ne_none _)
    exact h.grounded.move h.sane.sound h.unique (Iom.Sane.movable_self he) hD hD (fun hs => by simpa using hs.length_le)
  · rw [h.sane.tree_renameEntry he hy]
    exact h.slots.move (h.entry_slotted he hy)
  · rw [books_renameEntry]
    exact h.neat
  · rw [books_renameEntry]
    exact h.attributed
  · rw [books_renameEntry]
    exact h.bounded

omit he in
/-- In a directory of such a volume the loop finds a slot. -/
theorem insertScan_found (hE : m.tree.kind E = some .dir) (hs : m.insertScan (m.inode E) = some (found,j)) :
    found = true ∧ 2 ≤ j ∧ j < lab4DirEntryNum ∧ m.tree.slot E j = none := by
  have hf := hs
  rw [Iom.Mounted.insertScan_eq, ← h.sane.mounted.freeScan_eq h.sane.ledger hE] at hf
  obtain rfl := h.found_slot hE hf
  exact (h.sane.insertScan_cases hE hs).resolve_right (fun hn => Bool.true_eq_false_eq_False hn.1)

theorem moveEntry {p q : List (List UInt8)} (hx : ValidName x) (hE : m.tree.kind E = some .dir)
    (hs : m.insertScan (m.inode E) = some (found,j)) (hn : ∀ l, ¬m.tree.Binds E x l) (hDp : Reach shape m.tree p D)
    (hEq : Reach shape m.tree q E) (hout : ¬x :: p <:+ q) : (m.moveEntry (m.inode D) i (m.inode E) found j).Regular := by
  obtain ⟨rfl,hlo,hj,hnone⟩ := h.insertScan_found hE hs
  refine h.change (h.sane.moveEntry he hE hs) (fixed_moveEntry _ _ _ _ _) ?_ ?_ ?_ ?_ ?_ ?_ (h.hinted.moveEntry _ _ _ _ _)
    (h.mirrored.moveEntry (h.sane.slotAddr_le he.dir) (h.sane.slotAddr_le hE))
  · rw [h.sane.tree_moveEntry he hE hj hnone]
    exact Movable.unique h.unique (fun j l hs => absurd ⟨j,hs⟩ (hn l))
  · rw [h.sane.tree_moveEntry he hE hj hnone]
    exact h.grounded.move h.sane.sound h.unique ⟨he.lo,he.bound,hE,hlo,hj,.inr hnone⟩ hDp hEq hout
  · rw [h.sane.tree_moveEntry he hE hj hnone]
    exact h.slots.move (h.entry_slotted he hx)
  · rw [books_moveEntry]
    exact h.neat
  · rw [books_moveEntry]
    exact h.attributed
  · rw [books_moveEntry]
    exact h.bounded

end Remove

end Iom.Regular

end SimpleFS
