import SimpleFS.FileSpec
import SimpleFS.FileData

/-! # What the paths of a volume lead to

The map from paths to directories and files with their bytes, and what each operation does to it. No operation
touches the block of a file that it is not about.
-/
namespace SimpleFS
open Bytes Machine SlotTree

variable {m m1 m' : Iom} {D E k l b i j n offset fid : ℕ} {x y : List UInt8} {p q : List (List UInt8)} {v : Inode}
  {d : DirEntry} {found : Bool} {data : Mem} {z : ℤ} {ft : FileTable}

/-- What an inode is to a client. -/
def Iom.node (m : Iom) (k : ℕ) : Option Node :=
  match m.tree.kind k with
  | none => none
  | some .dir => some .dir
  | some .file => some (.file (m.content k))

/-- What every path leads to. -/
noncomputable def Iom.view (m : Iom) : Namespace (List UInt8) Node := names shape m.tree m.node

/-- Which inode every path leads to. -/
noncomputable def Iom.ids (m : Iom) : Namespace (List UInt8) ℕ := names shape m.tree some

theorem Iom.node_dir (h : m.tree.kind k = some .dir) : m.node k = some .dir := by
  unfold Iom.node
  rw [h]

theorem Iom.node_file (h : m.tree.kind k = some .file) : m.node k = some (.file (m.content k)) := by
  unfold Iom.node
  rw [h]

theorem Iom.labelled : Labelled m.tree m.node := by
  intro k hk
  unfold Iom.node
  split
  · next hn => exact absurd hn hk
  · exact Option.some_ne_none _
  · exact Option.some_ne_none _

theorem Iom.kind_of_node_dir (h : m.node k = some .dir) : m.tree.kind k = some .dir := by
  unfold Iom.node at h
  split at h
  · cases h
  · assumption
  · cases h

theorem Iom.kind_of_node_file {bytes : List UInt8} (h : m.node k = some (.file bytes)) :
    m.tree.kind k = some .file ∧ bytes = m.content k := by
  unfold Iom.node at h
  split at h
  · cases h
  · cases h
  · next hk => exact ⟨hk,(Node.file.inj (Option.some.inj h)).symm⟩

/-! ## Frames -/

/-- What a client knows inode `l` by stays as it is. -/
structure Iom.Spares (m m' : Iom) (l : ℕ) : Prop where
  kind : m'.tree.kind l = m.tree.kind l
  inode : m.tree.kind l = some .file → m'.inode l = m.inode l
  bytes : m.tree.kind l = some .file → ∀ q, m.books.Owns l q → ∀ j < m.clusterSize,
    m'.dev.bytes (m.blockAddr q + j) = m.dev.bytes (m.blockAddr q + j)

theorem add_kind {t : SlotTree ℕ (List UInt8)} {c : Kind} (hl : l ≠ k) : (add shape t c k D i x).kind l = t.kind l := by
  rw [add, kind_setSlot, kind_newNode, Function.update_of_ne hl]

theorem add_kind_self {t : SlotTree ℕ (List UInt8)} {c : Kind} : (add shape t c k D i x).kind k = some c := by
  rw [add, kind_setSlot, kind_newNode, Function.update_self]

theorem remove_kind {t : SlotTree ℕ (List UInt8)} (hl : l ≠ k) : (t.remove k D i).kind l = t.kind l :=
  (kind_setNode_of_ne hl).trans (congrFun kind_setSlot l)

namespace Iom.Regular
variable (h : m.Regular)
include h

theorem node_spared (hs : m.Spares m' l) : m'.node l = m.node l := by
  unfold Iom.node
  rw [hs.kind]
  split
  · rfl
  · rfl
  · next hk => rw [h.content_congr hk (hs.inode hk) (hs.bytes hk)]

/-- A file's block lies beside the slots of every directory. -/
theorem slot_apart (hD : m.tree.kind D = some .dir) (hi : i < lab4DirEntryNum) (hl : m.tree.kind l = some .file)
    (ho : m.books.Owns l b) (hj : j < m.clusterSize) :
    m.blockAddr b + j < slotAddr (m.inode D) i ∨ slotAddr (m.inode D) i + lab4DirEntrySize ≤ m.blockAddr b + j := by
  have hDl : D ≠ l := by
    rintro rfl
    cases hD.symm.trans hl
  have hne : m.books.block D ≠ b := h.sane.ledger.block_ne_of_owns ho hD hDl
  have hap := cluster_apart (n := m.clusterSize) hne.symm hj
  rw [h.sane.slotAddr_eq hD, Iom.blockAddr, Iom.blockAddr]
  have hcs := h.cluster
  unfold lab4DirEntryNum lab4DirEntrySize at *
  omega

/-- A file's block lies beside a block that another inode owns or nobody does. -/
theorem block_apart {c : ℕ} (hlk : l ≠ k) (hfree : m.books.Owns k c ∨ m.dbit c = false) (ho : m.books.Owns l b)
    (hj : j < m.clusterSize) : m.blockAddr b + j < m.blockAddr c ∨ m.blockAddr c + m.clusterSize ≤ m.blockAddr b + j := by
  have hbc : b ≠ c := by
    rintro rfl
    rcases hfree with hown | hclear
    · exact hlk (h.sane.ledger.distinct l k b ho hown)
    · obtain ⟨b',ho',_,hset⟩ := h.sane.ledger.own l ho.live ho.size
      obtain rfl := ho.unique_block h.sane.ledger.clusterSize_pos ho'
      exact Bool.false_ne_true (hclear.symm.trans hset)
  have hap := cluster_apart (n := m.clusterSize) hbc hj
  unfold Iom.blockAddr
  omega

omit h in
theorem data_le (b j : ℕ) : 4 * m.clusterSize ≤ m.blockAddr b + j := by
  unfold Iom.blockAddr
  omega

/-! ## Creations -/

section Create
variable (hD : m.tree.kind D = some .dir) (hk : k < m.inodeNum) (hbit : m.ibit k = false)
  (hf : m.freeScan (m.inode D) = some (found,i)) (hd : d.binding = some (x,k))
include hD hk hbit hf hd

theorem spares_createFile (hv : FileRecord k v) (hlk : l ≠ k) :
    m.Spares (m.createFile k v (slotAddr (m.inode D) i) d) l := by
  obtain rfl := h.found_slot hD hf
  have hi := (h.sane.vacant hD hbit hf).hi
  refine ⟨?_,fun _ => ?_,fun hl q ho j hj => ?_⟩
  · rw [h.tree_createFile hD hk hbit hf hd hv, add_kind hlk]
  · rw [show (m.createFile k v (slotAddr (m.inode D) i) d).inode = _ from congrArg Books.inode (books_createFile _ _ _ _ _)]
    exact Books.take_inode hlk
  · rw [h.sane.mounted.bytes_createFile (data_le q j)]
    exact splice_outside (h.slot_apart hD hi hl ho hj)

theorem spares_makeDir (hbm : b < m.maxBlock) (hb : m.dbit b = false) (hv : DirRecord k (m.blockAddr b) v) (hlk : l ≠ k) :
    m.Spares (m.makeDir k b v (slotAddr (m.inode D) i) d (m.inode D).iIno) l := by
  obtain rfl := h.found_slot hD hf
  have hi := (h.sane.vacant hD hbit hf).hi
  refine ⟨?_,fun hl => ?_,fun hl q ho j hj => ?_⟩
  · rw [h.tree_makeDir hD hk hbit hf hd hbm hb hv, add_kind hlk]
  · have hlD : l ≠ D := by
      rintro rfl
      cases hl.symm.trans hD
    rw [show (m.makeDir k b v (slotAddr (m.inode D) i) d (m.inode D).iIno).inode = _ from
      congrArg Books.inode (books_makeDir _ _ _ _ _ _ _), h.sane.ino_dir hD]
    exact (Books.relink_inode (c := (m.books.take k v).own b) hlD).trans (Books.take_inode hlk)
  · rw [h.sane.mounted.bytes_makeDir (data_le q j)]
    refine (splice_outside (h.block_apart hlk (.inr hb) ho hj)).trans ?_
    exact splice_outside (h.slot_apart hD hi hl ho hj)

end Create

/-! ## Removals -/

section Remove
variable (he : m.Entry D i x k)
include he

theorem spares_unlinkEmpty (hlk : l ≠ k) : m.Spares (m.unlinkEmpty k (slotAddr (m.inode D) i) d.deleted) l := by
  refine ⟨?_,fun _ => ?_,fun hl q ho j hj => ?_⟩
  · rw [h.sane.tree_unlinkEmpty he, remove_kind hlk]
  · rw [show (m.unlinkEmpty k (slotAddr (m.inode D) i) d.deleted).inode = _ from
      congrArg Books.inode (books_unlinkEmpty _ _ _ _)]
    exact Books.release_inode hlk
  · rw [h.sane.mounted.bytes_unlinkEmpty (data_le q j)]
    exact splice_outside (h.slot_apart he.dir he.lt hl ho hj)

omit he in
theorem bytes_unlinkFile {a c : ℕ} (hc : 4 * m.clusterSize ≤ c) : (m.unlinkFile k b a d).dev.bytes c =
    splice (splice m.dev.bytes (m.blockAddr b) m.clusterSize zeros) a lab4DirEntrySize (dirEntryCodec.enc d) c := by
  have hw : ((m.wipeBlock b).freeInode k).Mounted := h.sane.mounted.freeBlock.writeDev.freeInode
  have hcs : ((m.wipeBlock b).freeInode k).clusterSize = m.clusterSize := by simp [Iom.wipeBlock]
  have hdev : ((m.wipeBlock b).freeInode k).dev.bytes = splice m.dev.bytes (m.blockAddr b) m.clusterSize zeros := by
    simp [Iom.wipeBlock, Iom.writeDev]
  rw [Iom.unlinkFile, hw.bytes_unlinkEntry (by rw [hcs]; exact hc), hdev]

theorem spares_unlinkFile (hk : m.tree.kind k = some .file) (hb : m.books.Owns k b) (hlk : l ≠ k) :
    m.Spares (m.unlinkFile k b (slotAddr (m.inode D) i) d.deleted) l := by
  refine ⟨?_,fun _ => ?_,fun hl q ho j hj => ?_⟩
  · rw [h.sane.tree_unlinkFile he hk hb, remove_kind hlk]
  · rw [show (m.unlinkFile k b (slotAddr (m.inode D) i) d.deleted).inode = _ from
      congrArg Books.inode (books_unlinkFile _ _ _ _ _)]
    exact Books.release_inode (c := m.books.disown b) hlk
  · rw [h.bytes_unlinkFile (data_le q j), splice_outside (h.slot_apart he.dir he.lt hl ho hj)]
    exact splice_outside (h.block_apart hlk (.inl hb) ho hj)

theorem spares_removeDir (hk : m.tree.kind k = some .dir) (hempty : m.usedScan k = some (false,j)) (hb : m.books.Owns k b)
    (hlk : l ≠ k) : m.Spares (m.removeDir k b (slotAddr (m.inode D) i) d.deleted D) l := by
  refine ⟨?_,fun hl => ?_,fun hl q ho j hj => ?_⟩
  · rw [h.sane.tree_removeDir he hk hempty hb D, remove_kind hlk]
  · have hlD : l ≠ D := by
      rintro rfl
      cases hl.symm.trans he.dir
    rw [show (m.removeDir k b (slotAddr (m.inode D) i) d.deleted D).inode = _ from
      congrArg Books.inode (books_removeDir _ _ _ _ _ _)]
    exact (Books.relink_inode (c := (m.books.release k).disown b) hlD).trans (Books.release_inode hlk)
  · rw [h.sane.mounted.bytes_removeDir (data_le q j), splice_outside (h.slot_apart he.dir he.lt hl ho hj)]
    exact splice_outside (h.block_apart hlk (.inl hb) ho hj)

/-! ## Renames -/

theorem spares_renameEntry (hy : ValidName y) : m.Spares (m.renameEntry (m.inode D) i y) l := by
  refine ⟨?_,fun _ => rfl,fun hl q ho j hj => ?_⟩
  · rw [h.sane.tree_renameEntry he hy]
    rfl
  · exact splice_outside (h.slot_apart he.dir he.lt hl ho hj)

theorem spares_moveEntry (hE : m.tree.kind E = some .dir) (hj : j < lab4DirEntryNum) (hn : m.tree.slot E j = none) :
    m.Spares (m.moveEntry (m.inode D) i (m.inode E) true j) l := by
  refine ⟨?_,fun _ => congrFun (congrArg Books.inode (books_moveEntry _ _)) l,fun hl q ho c hc => ?_⟩
  · rw [h.sane.tree_moveEntry he hE hj hn]
    rfl
  · rw [Iom.moveEntry, if_pos rfl]
    refine (splice_outside (h.slot_apart he.dir he.lt hl ho hc)).trans ?_
    exact splice_outside (h.slot_apart hE hj hl ho hc)

end Remove

/-! ## The map -/

theorem view_of_reach (hp : Reach shape m.tree p k) : m.view p = m.node k := names_of_reach h.unique hp

theorem ids_eq_some : m.ids p = some k ↔ Reach shape m.tree p k := by
  rw [Iom.ids, names_eq_some h.unique]
  exact ⟨fun ⟨l,hl,he⟩ => Option.some.inj he ▸ hl,fun hk => ⟨k,hk,rfl⟩⟩

theorem view_eq_none : m.view p = none ↔ ∀ k, ¬Reach shape m.tree p k := names_eq_none h.sane.sound h.unique labelled

theorem view_dir : m.view p = some .dir ↔ ∃ k, Reach shape m.tree p k ∧ m.tree.kind k = some .dir := by
  rw [Iom.view, names_eq_some h.unique]
  exact ⟨fun ⟨k,hk,hn⟩ => ⟨k,hk,kind_of_node_dir hn⟩,fun ⟨k,hk,hn⟩ => ⟨k,hk,node_dir hn⟩⟩

theorem view_file {bytes : List UInt8} : m.view p = some (.file bytes) ↔
    ∃ k, Reach shape m.tree p k ∧ m.tree.kind k = some .file ∧ bytes = m.content k := by
  rw [Iom.view, names_eq_some h.unique]
  exact ⟨fun ⟨k,hk,hn⟩ => ⟨k,hk,kind_of_node_file hn⟩,fun ⟨k,hk,hn,hb⟩ => ⟨k,hk,hb ▸ node_file hn⟩⟩

/-- Below a path that leads nowhere there is nothing. -/
theorem view_below (hn : m.view p = none) : m.view (q ++ p) = none := by
  refine h.view_eq_none.mpr (fun k hk => ?_)
  obtain ⟨D,hD⟩ := hk.of_append
  exact h.view_eq_none.mp hn D hD

/-- A plain name is bound behind the dot entries. -/
theorem reach_binds (hD : Reach shape m.tree p D) (hkind : m.tree.kind D = some .dir) (hx : PlainName x)
    (hb : m.tree.Binds D x k) : Reach shape m.tree (x :: p) k := by
  obtain ⟨i,hi⟩ := hb
  refine .step hD ?_ hi
  by_contra hlt
  rcases (show i = 0 ∨ i = 1 by omega) with rfl | rfl
  · rw [h.sane.sound.self D hkind] at hi
    exact hx.notDot (congrArg Prod.fst (Option.some.inj hi)).symm
  · obtain ⟨q,hq⟩ := h.sane.sound.up D hkind
    rw [hi] at hq
    exact hx.notDotdot (congrArg Prod.fst (Option.some.inj hq))

/-- What a directory binds is what lies in it. -/
theorem view_binds (hD : Reach shape m.tree p D) (hkind : m.tree.kind D = some .dir) (hx : PlainName x) :
    m.view (x :: p) = none ↔ ∀ k, ¬m.tree.Binds D x k := by
  rw [h.view_eq_none]
  constructor
  · exact fun hn k hb => hn k (h.reach_binds hD hkind hx hb)
  · intro hn k hk
    obtain ⟨i,_,hi⟩ := (reach_cons h.unique hD).mp hk
    exact hn k ⟨i,hi⟩

end Iom.Regular

end SimpleFS
