import SimpleFS.CreateEffects

/-! # Writing the data of a file on ledger and tree

A write inside one block changes that block and the record of the file. It keeps the ledger when the block
was the file's before or nobody's, and leaves the tree alone.
-/
namespace SimpleFS
open Bytes Machine SlotTree

variable {m m' : Iom} {k b offset n : ℕ} {v : Inode}

/-- A write inside a block is a write of the whole block. -/
theorem writeDev_inside {a cs : ℕ} {x : Mem} (h : offset + n ≤ cs) :
    m.writeDev (a + offset) n x = m.writeDev a cs (splice (m.dev.bytes.shift a) offset n x) := by
  have hbytes : splice m.dev.bytes (a + offset) n x =
      splice m.dev.bytes a cs (splice (m.dev.bytes.shift a) offset n x) := by
    funext i
    unfold splice
    by_cases hi : a + offset ≤ i ∧ i < a + offset + n
    · rw [if_pos hi, if_pos (by omega), if_pos (by omega), Nat.sub_add_eq]
    · rw [if_neg hi]
      by_cases hb : a ≤ i ∧ i < a + cs
      · rw [if_pos hb, if_neg (by omega), Mem.shift_apply, Nat.add_sub_cancel' hb.1]
      · rw [if_neg hb]
  unfold Iom.writeDev
  rw [hbytes]

theorem Iom.Mounted.entries_writeInside {x : Mem} (h : m.Mounted) (hin : offset + n ≤ m.clusterSize) :
    ∃ g, (m.writeDev (m.blockAddr b + offset) n x).entries = fillBlock m.entries b g := by
  rw [writeDev_inside hin]
  exact ⟨_,h.entries_writeBlock⟩

namespace Books
variable {c : Books} {f : ℕ → ℕ → DirEntry}

/-- The record of a file may change in everything but its type. -/
theorem tree_store_file (hk : c.kind k = some .file) (ht : v.iType = lab4TypeFile) : (c.store k v).tree f = c.tree f := by
  have hkind : (c.store k v).kind = c.kind := by
    funext l
    refine kind_congr Iff.rfl ?_
    by_cases hl : l = k
    · subst hl
      rw [store_self, ht, (kind_eq_file.mp hk).2]
    · rw [store_of_ne hl]
  have hslot : (c.store k v).slot f = c.slot f := by
    funext l
    by_cases hl : l = k
    · subst hl
      funext i
      have hn : ¬(c.kind l = some .dir ∧ i < lab4DirEntryNum) := by simp [hk]
      unfold slot
      rw [hkind, if_neg hn, if_neg hn]
    · refine slot_congr (congrFun hkind l) ?_
      unfold block addr
      rw [store_of_ne hl]
      rfl
  unfold tree
  rw [hkind, hslot]

end Books

/-! ## The data and record of an append -/

section Append
variable {fid : ℕ} {buf : Mem}

theorem books_appendFinish {a : ℕ} : ((m.appendData fid buf n offset a).finishWrite v).books = m.books.store v.iIno.toNat v :=
  books_finishWrite _ v

theorem Iom.Mounted.appendFinish {a : ℕ} (h : m.Mounted) : ((m.appendData fid buf n offset a).finishWrite v).Mounted :=
  h.appendData.setInode.flushSb.flushItble.flushDbmap

theorem Iom.Mounted.entries_appendFinish (fid : ℕ) (buf : Mem) (h : m.Mounted) (hin : offset + n ≤ m.clusterSize) :
    ∃ g, ((m.appendData fid buf n offset (m.blockAddr b)).finishWrite v).entries = fillBlock m.entries b g := by
  have hd : (m.appendData fid buf n offset (m.blockAddr b)).Mounted := h.appendData
  obtain ⟨g,hg⟩ := h.entries_writeInside (b := b) (x := buf) hin
  refine ⟨g,?_⟩
  rw [Iom.finishWrite, hd.setInode.flushSb.flushItble.entries_flushDbmap, hd.setInode.flushSb.entries_flushItble,
    hd.setInode.entries_flushSb, entries_setInode, Iom.appendData, entries_setFile, hg]

theorem appendSize_seekFile : (m.seekFile fid offset).appendSize fid n offset = m.appendSize fid n offset := by
  unfold Iom.appendSize Iom.seekFile Iom.setFile
  simp

end Append

/-- The record a first write leaves: one block and the new size. -/
def Inode.withData (v : Inode) (a : ℕ) (size : ℤ) : Inode :=
  { v with iBlocks := Function.update v.iBlocks 0 (UInt32.ofNat a), iSize := Int64.ofInt size }

namespace Inode
variable {a : ℕ} {size : ℤ}

@[simp] theorem withData_iIno : (v.withData a size).iIno = v.iIno := rfl
@[simp] theorem withData_iType : (v.withData a size).iType = v.iType := rfl
@[simp] theorem withData_iLinksCount : (v.withData a size).iLinksCount = v.iLinksCount := rfl

theorem withData_block (ha : a < 2^32) : ((v.withData a size).iBlocks 0).toNat = a := by
  have h : (v.withData a size).iBlocks 0 = UInt32.ofNat a := Function.update_self (β := fun _ => UInt32) 0 _ v.iBlocks
  rw [h]
  exact UInt32.toNat_ofNat_of_lt' ha

theorem withData_blocks {j : Fin 15} (hj : j ≠ 0) : (v.withData a size).iBlocks j = v.iBlocks j :=
  Function.update_of_ne hj _ _

theorem withData_size (hlo : 1 ≤ size) (hhi : size < 2^63) : (v.withData a size).iSize ≠ 0 := by
  intro h
  have hsize : (Int64.ofInt size).toInt = 0 := congrArg Int64.toInt h
  rw [Int64.toInt_ofInt_of_le (by omega) hhi] at hsize
  omega

end Inode

theorem FileRecord.withData {a : ℕ} {size : ℤ} (h : FileRecord k v) : LiveRecord k (v.withData a size) :=
  ⟨h.ino,.inl h.type,fun _ j hj => (Inode.withData_blocks hj).trans (h.blocks j),
    fun hd => absurd (h.type.symm.trans hd) (by decide)⟩

/-- A file gets data in a block that was its own or nobody's. -/
theorem Iom.Sane.storeFile {g : ℕ → DirEntry} (h : m.Sane) (hk : m.tree.kind k = some .file) (hk3 : 3 ≤ k) (hm : m'.Mounted)
    (hb : m'.books = (m.books.store k v).own b) (he : m'.entries = fillBlock m.entries b g) (hv : LiveRecord k v)
    (ht : v.iType = lab4TypeFile) (haddr : (v.iBlocks 0).toNat = m.blockAddr b) (hle : m.blockAddr b + m.clusterSize ≤ 2^31)
    (hsize : v.iSize ≠ 0) (hfree : m.books.Owns k b ∨ m.dbit b = false) : m'.Sane ∧ m'.tree = m.tree := by
  have hlive := (Books.kind_eq_file.mp hk).1
  have hne : ∀ D, m.books.kind D = some .dir → m.books.block D ≠ b := by
    intro D hD
    rcases hfree with ho | hclear
    · refine h.ledger.block_ne_of_owns ho hD ?_
      rintro rfl
      cases hk.symm.trans hD
    · exact h.ledger.block_ne_of_clear hclear hD
  have hset : ∀ q, m.books.dbit q = true → Function.update m.books.dbit b true q = true := by
    intro q hq
    by_cases hqb : q = b
    · subst hqb
      exact Function.update_self _ _ _
    · rwa [Function.update_of_ne hqb]
  have htree : m'.tree = m.tree := by
    rw [Iom.tree, hb, he]
    refine (Books.tree_store_file hk ht).trans ?_
    exact Books.tree_fillBlock hne
  refine ⟨⟨hm,?_,by rw [htree]; exact h.sound⟩,htree⟩
  rw [hb]
  exact h.ledger.store_owner hlive hv hk3 _ hset haddr hle (Function.update_self _ _ _) hsize hfree

/-! ## The first write to a file -/

section FirstWrite
variable {fid : ℕ} {buf : Mem} {z : ℤ}

/-- The io manager after the first write to the empty file with record `v`, which got block `b`. -/
def Iom.firstWrite (m : Iom) (fid : ℕ) (buf : Mem) (n b : ℕ) (v : Inode) (z : ℤ) : Iom :=
  ((m.takeBlock b).appendData fid buf n 0 (m.blockAddr b)).finishWrite (v.withData (m.blockAddr b) z)

theorem books_firstWrite (hino : v.iIno.toNat = k) :
    (m.firstWrite fid buf n b v z).books = (m.books.store k (v.withData (m.blockAddr b) z)).own b := by
  rw [Iom.firstWrite, books_appendFinish, books_takeBlock, Inode.withData_iIno, hino]
  rfl

theorem inodeRoom_firstWrite {d : ℤ} : (m.firstWrite fid buf n b v z).InodeRoom d ↔ m.InodeRoom d := by
  have hfinish : (m.firstWrite fid buf n b v z).InodeRoom d ↔ (m.takeBlock b).InodeRoom d := inodeRoom_congr rfl rfl
  exact hfinish.trans inodeRoom_takeBlock

theorem blockRoom_firstWrite {d : ℤ} (h : m.BlockRoom (-1)) :
    (m.firstWrite fid buf n b v z).BlockRoom d ↔ m.BlockRoom (-1 + d) := by
  have hfinish : (m.firstWrite fid buf n b v z).BlockRoom d ↔ (m.takeBlock b).BlockRoom d := blockRoom_congr rfl rfl
  exact hfinish.trans (blockRoom_takeBlock h)

theorem Iom.Mounted.entries_firstWrite (fid : ℕ) (buf : Mem) (h : m.Mounted) (hn : n ≤ m.clusterSize) :
    ∃ g, (m.firstWrite fid buf n b v z).entries = fillBlock m.entries b g := by
  have ht : (m.takeBlock b).Mounted := h.takeBlock
  have hin : 0 + n ≤ (m.takeBlock b).clusterSize := by
    rw [Nat.zero_add, Iom.takeBlock_clusterSize]
    exact hn
  obtain ⟨g,hg⟩ := ht.entries_appendFinish fid buf (v := v.withData (m.blockAddr b) z) (b := b) hin
  rw [entries_takeBlock] at hg
  exact ⟨g,hg⟩

theorem Iom.Sane.firstWrite (h : m.Sane) (hk : m.tree.kind k = some .file) (hk3 : 3 ≤ k) (hv : FileRecord k v)
    (hino : v.iIno.toNat = k) (hbit : m.dbit b = false) (hle : m.blockAddr b + m.clusterSize ≤ 2^31)
    (hn : n ≤ m.clusterSize) (hlo : 1 ≤ z) (hhi : z < 2^63) :
    (m.firstWrite fid buf n b v z).Sane ∧ (m.firstWrite fid buf n b v z).tree = m.tree := by
  obtain ⟨g,hg⟩ := h.mounted.entries_firstWrite fid buf (v := v) (b := b) (z := z) hn
  have hm : (m.firstWrite fid buf n b v z).Mounted := h.mounted.takeBlock.appendFinish
  have hb : m.blockAddr b < 2^32 := by omega
  exact h.storeFile hk hk3 hm (books_firstWrite hino) hg hv.withData hv.type (Inode.withData_block hb) hle
    (Inode.withData_size hlo hhi) (.inr hbit)

end FirstWrite

/-- The first write to an empty file takes a block and appends, or fails. -/
theorem wp_firstWrite {e : Env} {s : Sys} {fid size : ℕ} {buf : Mem} {Q : ℤ → Sys → Prop} (hio : e.IoOk)
    (hm : s.iom.Mounted) (hlo : 1 ≤ size) (hhi : size ≤ s.iom.clusterSize)
    (hv : s.iom.inode (s.iom.sbi.fileTable fid).ino.toNat = v) (hino : v.iIno.toNat < s.iom.inodeNum) (hz : v.iSize = 0)
    (herr : ∀ s', Q lab4Error s')
    (hok : ∀ s' b, s.iom.BlockRoom (-1) → b < s.iom.maxBlock → s.iom.dbit b = false →
      s'.iom = (s.iom.seekFile fid 0).firstWrite fid buf size b v (s.iom.appendSize fid size 0) → Q (size : ℕ) s') :
    Prog.wp True (doWrite fid buf size 0) Q e s := by
  refine wp_doWrite hio hm hlo (by omega) hv hino (fun s' _ => herr s') (fun s' m1 v1 a _ hroom hblock _ hs' => ?_)
    (fun s' _ hlt _ => ?_)
  · cases hblock with
    | old hn => exact absurd hz hn
    | fresh b _ hb hbit _ =>
      refine hok s' b (hroom hz) hb hbit (hs'.trans ?_)
      exact congrArg (fun z => Iom.finishWrite _ (v.withData (s.iom.blockAddr b) z)) appendSize_seekFile
  · rw [hz] at hlt
    exact absurd hlt (by decide)

end SimpleFS
