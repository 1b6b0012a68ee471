import SimpleFS.Erasing
import SimpleFS.Regular
import SimpleFS.WriteWindow

/-! # The data of a file on a regular volume

A write at the end of a file or at its start stays inside the one block of the file: an empty file gets a free
block, data is appended, or the whole block becomes a string copy of the buffer.
-/
namespace SimpleFS
open Bytes Machine Prog SlotTree

variable {e : Env} {s : Sys} {m m1 m' : Iom} {k b n offset fid : ℕ} {v : Inode} {buf data : Mem} {z : ℤ} {ft : FileTable}

namespace Books
variable {c : Books}

theorem own_of_set (h : c.dbit b = true) : c.own b = c := by
  have hd : Function.update c.dbit b true = c.dbit := by
    rw [← h]
    exact Function.update_eq_self b c.dbit
  show (⟨c.clusterSize,c.inode,c.ibit,Function.update c.dbit b true⟩ : Books) = c
  rw [hd]

end Books

/-! ## Storing data -/

/-- The io manager with block `b` in use. -/
structure Iom.Prepared (m m1 : Iom) (b : ℕ) : Prop where
  hinted : m1.Hinted m.maxBlock
  books : m1.books = m.books.own b
  dev : m1.dev = m.dev
  ibmap : m1.ibmap = m.ibmap
  fixed : m1.fixed = m.fixed

/-- Bytes go into the data area, and the record gets block `a` and the size `z`. -/
def Iom.storeData (m : Iom) (a n : ℕ) (data : Mem) (fid : ℕ) (ft : FileTable) (v : Inode) (z : ℤ) (blk : ℕ) : Iom :=
  ((m.writeDev a n data).setFile fid ft).finishWrite (v.withData blk z)

namespace Iom.Regular
variable (h : m.Regular)
include h

/-- Handles are no part of the volume. -/
theorem setFile (fid : ℕ) (ft : FileTable) : (m.setFile fid ft).Regular := by
  have he : (m.setFile fid ft).entries = m.entries := entries_setFile m fid ft
  have ht : (m.setFile fid ft).tree = m.tree := by
    rw [Iom.tree, he]
    rfl
  refine h.change ⟨h.sane.mounted.setFile,h.sane.ledger,by rw [ht]; exact h.sane.sound⟩ (fixed_setFile _ _) ?_ ?_
    ?_ h.neat h.attributed h.bounded (h.hinted.setFile _ _) (h.mirrored.setFile _ _)
  · rw [ht]
    exact h.unique
  · rw [ht]
    exact h.grounded
  · rw [ht]
    exact h.slots

theorem prepared_seek (ho : m.books.Owns k b) : m.Prepared (m.seekFile fid offset) b := by
  obtain ⟨b',ho',_,hset⟩ := h.sane.ledger.own k ho.live ho.size
  obtain rfl := ho.unique_block h.sane.ledger.clusterSize_pos ho'
  exact ⟨h.hinted.setFile _ _,(Books.own_of_set hset).symm,rfl,rfl,rfl⟩

theorem prepared_take (b fid offset : ℕ) : m.Prepared ((m.seekFile fid offset).takeBlock b) b :=
  ⟨(h.hinted.setFile _ _).takeBlock b,books_takeBlock _ _,Iom.takeBlock_dev _ _,rfl,rfl⟩

/-- A file with its number. -/
theorem file_live (hk : m.tree.kind k = some .file) : 3 ≤ k ∧ m.books.Live k ∧ (m.inode k).iType = lab4TypeFile := by
  obtain ⟨hlive,ht⟩ := Books.kind_eq_file.mp hk
  refine ⟨?_,hlive,ht⟩
  have h2 : k ≠ 2 := by
    rintro rfl
    cases hk.symm.trans h.sane.sound.root
  have := hlive.1
  omega

/-- The number in the record of a file is its index. -/
theorem file_ino (hk : m.tree.kind k = some .file) : (m.inode k).iIno.toNat = k := by
  obtain ⟨_,hlive,_⟩ := h.file_live hk
  rw [show m.inode k = m.books.inode k from rfl, (h.sane.ledger.live k hlive).ino]
  exact UInt32.toNat_ofNat_of_lt' (h.sane.index_lt hlive.2.1)

section Store
variable (hk : m.tree.kind k = some .file) (hp : m.Prepared m1 b) (hin : offset + n ≤ m.clusterSize)
include hk hp

theorem books_storeData : (m1.storeData (m.blockAddr b + offset) n data fid ft (m.inode k) z (m.blockAddr b)).books =
    (m.books.store k ((m.inode k).withData (m.blockAddr b) z)).own b := by
  rw [Iom.storeData, books_finishWrite, books_setFile, books_writeDev, hp.books, Inode.withData_iIno, h.file_ino hk]
  rfl

omit h hk in
theorem mounted_storeData :
    (m1.storeData (m.blockAddr b + offset) n data fid ft (m.inode k) z (m.blockAddr b)).Mounted :=
  have hm1 : m1.Mounted := hp.hinted.mounted
  hm1.writeDev.setFile.setInode.flushSb.flushItble.flushDbmap

omit h hk in
include hin in
theorem entries_storeData : ∃ g, (m1.storeData (m.blockAddr b + offset) n data fid ft (m.inode k) z (m.blockAddr b)).entries =
    fillBlock m.entries b g := by
  have hcs : m1.clusterSize = m.clusterSize := fixed_cluster hp.fixed
  have hm1 : m1.Mounted := hp.hinted.mounted
  have hw : ((m1.writeDev (m.blockAddr b + offset) n data).setFile fid ft).Mounted := hm1.writeDev.setFile
  obtain ⟨g,hg⟩ := hm1.entries_writeInside (b := b) (x := data) (show offset + n ≤ m1.clusterSize by rw [hcs]; exact hin)
  rw [blockAddr_congr hcs, entries_congr hp.dev hcs] at hg
  refine ⟨g,?_⟩
  rw [Iom.storeData, Iom.finishWrite, hw.setInode.flushSb.flushItble.entries_flushDbmap,
    hw.setInode.flushSb.entries_flushItble, hw.setInode.entries_flushSb, entries_setInode, entries_setFile, hg]

theorem hinted_storeData :
    (m1.storeData (m.blockAddr b + offset) n data fid ft (m.inode k) z (m.blockAddr b)).Hinted m.maxBlock := by
  have hset : ((m1.writeDev (m.blockAddr b + offset) n data).setFile fid ft).Hinted m.maxBlock :=
    (hp.hinted.writeDev _ _ _).setFile _ _
  refine hset.finishWrite ⟨?_,fun j hj => (Inode.withData_blocks hj).trans (h.neat.tail k hk j hj)⟩
  have hnum : ((m1.writeDev (m.blockAddr b + offset) n data).setFile fid ft).inodeNum = m.inodeNum := by
    rw [Iom.inodeNum, Iom.setFile_clusterSize, Iom.writeDev_clusterSize, fixed_cluster hp.fixed]
    rfl
  rw [Inode.withData_iIno, h.file_ino hk, hnum]
  exact (h.file_live hk).2.1.2.1

omit hk in
theorem mirrored_storeData :
    (m1.storeData (m.blockAddr b + offset) n data fid ft (m.inode k) z (m.blockAddr b)).Mirrored := by
  have hm1 : m1.Mounted := hp.hinted.mounted
  have hcs : m1.clusterSize = m.clusterSize := fixed_cluster hp.fixed
  have hw : ((m1.writeDev (m.blockAddr b + offset) n data).setFile fid ft).Mounted := hm1.writeDev.setFile
  refine hw.setInode.mirrored_flushWrite (fun j hj => ?_)
  have hj' : j < m.clusterSize := hcs ▸ hj
  have hlow : m.clusterSize + j < m.blockAddr b + offset := by
    unfold Iom.blockAddr
    omega
  show splice m1.dev.bytes (m.blockAddr b + offset) n data (m1.clusterSize + j) = m1.ibmap j
  rw [hcs, splice_outside (.inl hlow), hp.dev, hp.ibmap]
  exact h.mirrored.ibmap j hj'

variable (hb : b < m.maxBlock) (hlo : 1 ≤ z) (hhi : z ≤ 4096)
  (hfree : m.books.Owns k b ∨ (m.inode k).iSize = 0 ∧ m.dbit b = false)
include hb hlo hhi hfree hin

/-- Data in the block of the file or in a free one. -/
theorem storeData : (m1.storeData (m.blockAddr b + offset) n data fid ft (m.inode k) z (m.blockAddr b)).Regular ∧
    (m1.storeData (m.blockAddr b + offset) n data fid ft (m.inode k) z (m.blockAddr b)).tree = m.tree := by
  obtain ⟨h3,hlive,ht⟩ := h.file_live hk
  have hle := h.block_le hb
  have hrec := h.sane.ledger.live k hlive
  have htail : ∀ j, j ≠ 0 → ((m.inode k).withData (m.blockAddr b) z).iBlocks j = 0 :=
    fun j hj => (Inode.withData_blocks hj).trans (h.neat.tail k hk j hj)
  have hsize : ((m.inode k).withData (m.blockAddr b) z).iSize.toInt = z := Int64.toInt_ofInt_of_le (by omega) (by omega)
  have hne : ((m.inode k).withData (m.blockAddr b) z).iSize ≠ 0 := Inode.withData_size hlo (by omega)
  have hblock : (((m.inode k).withData (m.blockAddr b) z).iBlocks 0).toNat = m.blockAddr b :=
    Inode.withData_block (by omega)
  have hv : LiveRecord k ((m.inode k).withData (m.blockAddr b) z) :=
    ⟨hrec.ino,.inl ht,fun _ => htail,fun hd => absurd (ht.symm.trans hd) (by decide)⟩
  have hbounded : ((m.inode k).withData (m.blockAddr b) z).Bounded :=
    ⟨fun hz => absurd hz hne,by rw [hsize]; omega,by rw [hsize]; exact hhi⟩
  have hbooks := @books_storeData m m1 k b n offset fid data z ft h hk hp
  obtain ⟨g,hg⟩ := @entries_storeData m m1 k b n offset fid data z ft hp hin
  obtain ⟨hsane,htree⟩ := h.sane.storeFile hk h3 (mounted_storeData hp) hbooks hg hv ht hblock hle hne (hfree.imp_right And.right)
  have hfix : (m1.storeData (m.blockAddr b + offset) n data fid ft (m.inode k) z (m.blockAddr b)).fixed = m.fixed := by
    rw [Iom.storeData, fixed_finishWrite, fixed_setFile, fixed_writeDev, hp.fixed]
  have hlinks : ((m.inode k).withData (m.blockAddr b) z).iLinksCount = 1 := h.neat.links k hk
  refine ⟨h.change hsane hfix ?_ ?_ ?_ ?_ ?_ ?_ (h.hinted_storeData hk hp) (h.mirrored_storeData hp),htree⟩
  · rw [htree]
    exact h.unique
  · rw [htree]
    exact h.grounded
  · rw [htree]
    exact h.slots
  · rw [hbooks]
    exact h.neat.storeFile h.sane.ledger.clusterSize_pos hk h3 ht hlinks htail hb hblock
  · rw [hbooks]
    exact h.attributed.storeFile h.sane.ledger.clusterSize_pos hlive hne hblock hfree
  · rw [hbooks]
    show (m.books.store k _).EachLive Inode.Bounded
    exact h.bounded.store hbounded

end Store

end Iom.Regular

/-! ## The bytes of a file -/

/-- The first `i_size` bytes of the block. -/
def Iom.content (m : Iom) (k : ℕ) : List UInt8 :=
  (List.range (m.inode k).iSize.toInt.toNat).map (fun i => m.dev.bytes (m.dataAddr k + i))

theorem Iom.content_eq : m.content k = (m.dev.bytes.shift (m.dataAddr k)).take (m.inode k).iSize.toInt.toNat := rfl

namespace Iom.Regular
variable (h : m.Regular)
include h

/-- A file fits its block. -/
theorem size_le (hk : m.tree.kind k = some .file) : (m.inode k).iSize.toInt.toNat ≤ m.clusterSize ∧ 0 ≤ (m.inode k).iSize.toInt := by
  have hb := h.bounded k (h.file_live hk).2.1
  have hlo : 0 ≤ (m.inode k).iSize.toInt := hb.nonneg
  have hhi : (m.inode k).iSize.toInt ≤ 4096 := hb.le
  rw [h.cluster]
  omega

/-- The same record and the same block, the same bytes. -/
theorem content_congr (hk : m.tree.kind k = some .file) (hin : m'.inode k = m.inode k)
    (hb : ∀ q, m.books.Owns k q → ∀ j < m.clusterSize, m'.dev.bytes (m.blockAddr q + j) = m.dev.bytes (m.blockAddr q + j)) :
    m'.content k = m.content k := by
  have haddr : m'.dataAddr k = m.dataAddr k := by rw [Iom.dataAddr, Iom.dataAddr, hin]
  rw [Iom.content_eq, Iom.content_eq, hin, haddr]
  by_cases hz : (m.inode k).iSize = 0
  · rw [hz]
    rfl
  · obtain ⟨q,ho,_,_⟩ := h.sane.ledger.own k (h.file_live hk).2.1 hz
    have hq : m.dataAddr k = m.blockAddr q := ho.addr
    refine Mem.take_congr (fun i hi => ?_)
    have hle := (h.size_le hk).1
    rw [Mem.shift_apply, Mem.shift_apply, hq]
    exact hb q ho i (by omega)

section Store
variable (hk : m.tree.kind k = some .file) (hp : m.Prepared m1 b)
include hk hp

theorem inode_storeData : (m1.storeData (m.blockAddr b + offset) n data fid ft (m.inode k) z (m.blockAddr b)).inode =
    Function.update m.inode k ((m.inode k).withData (m.blockAddr b) z) :=
  congrArg Books.inode (h.books_storeData hk hp)

omit h hk in
/-- The data area after a write. -/
theorem bytes_storeData {c : ℕ} (hc : 4 * m.clusterSize ≤ c) :
    (m1.storeData (m.blockAddr b + offset) n data fid ft v z (m.blockAddr b)).dev.bytes c =
      splice m.dev.bytes (m.blockAddr b + offset) n data c := by
  have hm1 : m1.Mounted := hp.hinted.mounted
  have hw : (((m1.writeDev (m.blockAddr b + offset) n data).setFile fid ft).setInode (v.withData (m.blockAddr b) z).iIno.toNat
      (v.withData (m.blockAddr b) z)).Mounted := hm1.writeDev.setFile.setInode
  have hcs : (((m1.writeDev (m.blockAddr b + offset) n data).setFile fid ft).setInode (v.withData (m.blockAddr b) z).iIno.toNat
      (v.withData (m.blockAddr b) z)).clusterSize = m.clusterSize := fixed_cluster hp.fixed
  rw [Iom.storeData, Iom.finishWrite, hw.flushSb.flushItble.bytes_flushDbmap (by rw [← hcs] at hc; exact hc),
    hw.flushSb.bytes_flushItble (by rw [← hcs] at hc; exact hc), hw.bytes_flushSb (by rw [← hcs] at hc; exact hc), ← hp.dev]
  rfl

/-- Other files keep their bytes. -/
theorem content_storeData_of_ne {l : ℕ} (hin : offset + n ≤ m.clusterSize) (hfree : m.books.Owns k b ∨ m.dbit b = false)
    (hl : m.tree.kind l = some .file) (hlk : l ≠ k) :
    (m1.storeData (m.blockAddr b + offset) n data fid ft (m.inode k) z (m.blockAddr b)).content l = m.content l := by
  refine h.content_congr hl ?_ (fun q ho j hj => ?_)
  · rw [h.inode_storeData hk hp, Function.update_of_ne hlk]
  · have hqb : q ≠ b := by
      rintro rfl
      rcases hfree with hown | hclear
      · exact hlk (h.sane.ledger.distinct l k q ho hown)
      · obtain ⟨q',ho',_,hset⟩ := h.sane.ledger.own l ho.live ho.size
        obtain rfl := ho.unique_block h.sane.ledger.clusterSize_pos ho'
        exact Bool.false_ne_true (hclear.symm.trans hset)
    rw [bytes_storeData hp (by unfold Iom.blockAddr; omega), splice_outside]
    have := cluster_apart hqb hj
    unfold Iom.blockAddr
    omega

/-- The bytes of the file itself. -/
theorem content_storeData (hb : b < m.maxBlock) (hlo : 0 ≤ z) (hhi : z ≤ 4096) :
    (m1.storeData (m.blockAddr b + offset) n data fid ft (m.inode k) z (m.blockAddr b)).content k =
      Mem.take (splice (m.dev.bytes.shift (m.blockAddr b)) offset n data) z.toNat := by
  have hle := h.block_le hb
  have hrec : (m1.storeData (m.blockAddr b + offset) n data fid ft (m.inode k) z (m.blockAddr b)).inode k =
      (m.inode k).withData (m.blockAddr b) z := by rw [h.inode_storeData hk hp, Function.update_self]
  have haddr : (m1.storeData (m.blockAddr b + offset) n data fid ft (m.inode k) z (m.blockAddr b)).dataAddr k = m.blockAddr b := by
    rw [Iom.dataAddr, hrec]
    exact Inode.withData_block (by omega)
  have hsize : ((m.inode k).withData (m.blockAddr b) z).iSize.toInt = z := Int64.toInt_ofInt_of_le (by omega) (by omega)
  rw [Iom.content_eq, hrec, hsize, haddr]
  refine Mem.take_congr (fun i _ => ?_)
  rw [Mem.shift_apply, bytes_storeData hp (by unfold Iom.blockAddr; omega)]
  unfold splice
  by_cases hi : offset ≤ i ∧ i < offset + n
  · rw [if_pos (by omega), if_pos hi]
    congr 1
    omega
  · rw [if_neg (by omega), if_neg hi, Mem.shift_apply]

end Store

end Iom.Regular

/-! ## Outcomes -/

/-- How a `do_write` through the handle `fid` of file `k` ends: at the end of the data or behind it the buffer is
written, before it the whole cluster from the offset on. A file without data gets a free block. -/
inductive Iom.Wrote (m : Iom) (fid k : ℕ) (buf : Mem) (size offset : ℕ) : ℤ → Iom → Prop
  | append {b : ℕ} {m1 : Iom} (hp : m.Prepared m1 b) (hb : b < m.maxBlock)
      (hfree : m.books.Owns k b ∨ (m.inode k).iSize = 0 ∧ m.dbit b = false)
      (hfile : ∀ j, j ≠ fid → m1.sbi.fileTable j = m.sbi.fileTable j) (hle : (m.inode k).iSize.toInt ≤ offset) :
      Wrote m fid k buf size offset (size : ℕ) (m1.storeData (m.blockAddr b + offset) size buf fid
        { m.sbi.fileTable fid with rwoffset := (offset + size : ℕ), size := m.appendSize fid size offset }
        (m.inode k) (m.appendSize fid size offset) (m.blockAddr b))
  | copy {b : ℕ} (ho : m.books.Owns k b) (hlt : offset < (m.inode k).iSize.toInt) :
      Wrote m fid k buf size offset (m.clusterSize : ℕ) ((m.seekFile fid offset).storeData (m.blockAddr b + offset) m.clusterSize
        (strncpyBuf buf size) fid { m.sbi.fileTable fid with rwoffset := size, size := size } (m.inode k) (size : ℕ) (m.blockAddr b))

/-- A record that names the block already. -/
theorem Inode.withData_own {a : ℕ} (h : (v.iBlocks 0).toNat = a) : v.withData a z = { v with iSize := Int64.ofInt z } := by
  have hblocks : Function.update v.iBlocks 0 (UInt32.ofNat a) = v.iBlocks := by
    rw [← h, UInt32.ofNat_toNat]
    exact Function.update_eq_self 0 v.iBlocks
  unfold Inode.withData
  rw [hblocks]

theorem seekFile_fileTable {j : ℕ} (hj : j ≠ fid) : (m.seekFile fid offset).sbi.fileTable j = m.sbi.fileTable j :=
  Function.update_of_ne hj _ _

theorem seekFile_fileTable_self :
    (m.seekFile fid offset).sbi.fileTable fid = { m.sbi.fileTable fid with rwoffset := offset } := setFile_fileTable_self

namespace Iom.Regular
variable (he : e.Nominal) (h : s.iom.Regular) (hk : s.iom.tree.kind k = some .file)
  (hused : (s.iom.sbi.fileTable fid).used = true) (hino : (s.iom.sbi.fileTable fid).ino.toNat = k)
  (hfid : fid < maxOpenFile)
include h hk hused hino hfid

theorem fileOpen (hlo : -2^63 ≤ (s.iom.sbi.fileTable fid).size) (hhi : (s.iom.sbi.fileTable fid).size < 2^63) :
    s.iom.FileOpen fid (s.iom.inode k) := by
  obtain ⟨h3,hlive,ht⟩ := h.file_live hk
  refine ⟨⟨hfid,by rw [hino]; exact hlive.1,by rw [hino]; exact hlive.2.1,by rw [hino]⟩,hused,by rw [hino]; exact hlive.2.2,ht,?_,
    fun hz => ?_,hlo,hhi⟩
  · exact UInt32.toNat_inj.mp ((h.file_ino hk).trans hino.symm)
  · obtain ⟨b,ho,_,_⟩ := h.sane.ledger.own k hlive hz
    have haddr : ((s.iom.inode k).iBlocks 0).toNat = s.iom.blockAddr b := ho.addr
    rw [haddr, Iom.blockAddr]
    omega

include he in
theorem wp_wrote {u : Prop} {size : ℕ} {Q : ℤ → Sys → Prop} (hsize : 1 ≤ size) (hin : offset + size ≤ s.iom.clusterSize)
    (hlo : -2^63 ≤ (s.iom.sbi.fileTable fid).size) (hhi : (s.iom.sbi.fileTable fid).size < 2^63)
    (hu : ¬(0 < e.fuel ∧ ((s.iom.inode k).iSize = 0 → s.iom.BlockReady)) → u)
    (hQ : ∀ r s', s.iom.Wrote fid k buf size offset r s'.iom → Q r s') : wp u (doWrite fid buf size offset) Q e s := by
  have hopen := h.fileOpen hk hused hino hfid hlo hhi
  have hcs := h.sane.mounted.cluster_le
  -- with allocations succeeding no write is refused
  have hok : wp u (doWrite fid buf size offset) (fun r _ => r ≠ lab4Error) e s := by
    refine wp_doWrite_within h.sane.mounted hopen hsize hin (fun hn => hu (fun hr => hn ⟨he,hr.1,fun hz => ?_⟩))
      (fun _ hn => absurd he hn) (fun _ _ _ _ _ _ _ hr => ?_) (fun _ _ _ hr => ?_)
    · obtain ⟨b,hb,hlt⟩ := (hr.2 hz).scan
      exact ⟨b,hb,hlt,(hr.2 hz).room⟩
    · have : (0 : ℤ) ≤ lab4Error := hr ▸ Int.natCast_nonneg size
      exact absurd this (by decide)
    · have : (0 : ℤ) ≤ lab4Error := hr ▸ Int.natCast_nonneg s.iom.clusterSize
      exact absurd this (by decide)
  suffices himp : wp True (doWrite fid buf size offset) (fun r s' => r ≠ lab4Error → Q r s') e s from
    (hok.also himp).mono (fun r s' hr => hr.2 hr.1)
  have hnum : (s.iom.inode k).iIno.toNat < s.iom.inodeNum := by
    rw [h.file_ino hk]
    exact (h.file_live hk).2.1.2.1
  refine wp_doWrite he.io h.sane.mounted hsize hin (by rw [hino]) hnum (fun s' _ hr => absurd rfl hr)
    (fun s' m1 v1 a _ _ hblock hle hs' _ => hQ _ s' ?_) (fun s' _ hlt hs' _ => hQ _ s' ?_)
  · cases hblock with
    | old hz =>
      obtain ⟨b,ho,_,_⟩ := h.sane.ledger.own k (h.file_live hk).2.1 hz
      have haddr : ((s.iom.inode k).iBlocks 0).toNat = s.iom.blockAddr b := ho.addr
      rw [appendSize_seekFile, ← Inode.withData_own haddr, haddr] at hs'
      have hw : s.iom.Wrote fid k buf size offset (size : ℕ) _ :=
        .append (h.prepared_seek ho : s.iom.Prepared (s.iom.seekFile fid offset) b) (h.neat.below k b ho) (.inl ho)
          (fun j hj => seekFile_fileTable hj) hle
      rw [hs']
      convert hw using 2
      unfold Iom.appendData Iom.storeData
      rw [appendSize_seekFile, seekFile_fileTable_self]
    | fresh b hz hb hbit _ =>
      have hw : s.iom.Wrote fid k buf size offset (size : ℕ) _ :=
        .append (h.prepared_take b fid offset) hb (.inr ⟨hz,hbit⟩)
          (fun j hj => seekFile_fileTable hj) hle
      have hsz : ((s.iom.seekFile fid offset).takeBlock b).appendSize fid size offset = s.iom.appendSize fid size offset :=
        appendSize_seekFile
      rw [hsz] at hs'
      rw [hs']
      convert hw using 2
      unfold Iom.appendData Iom.storeData
      rw [hsz, show ((s.iom.seekFile fid offset).takeBlock b).sbi.fileTable fid = _ from seekFile_fileTable_self]
      rfl
  · have hz : (s.iom.inode k).iSize ≠ 0 := size_ne_zero hlt
    obtain ⟨b,ho,_,_⟩ := h.sane.ledger.own k (h.file_live hk).2.1 hz
    have haddr : ((s.iom.inode k).iBlocks 0).toNat = s.iom.blockAddr b := ho.addr
    have hw : s.iom.Wrote fid k buf size offset (s.iom.clusterSize : ℕ) _ := .copy ho hlt
    rw [hs', ← Inode.withData_own haddr, haddr]
    convert hw using 2
    unfold Iom.overwriteData Iom.storeData
    rw [seekFile_fileTable_self]
    rfl

end Iom.Regular

end SimpleFS
