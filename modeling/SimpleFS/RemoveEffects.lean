import SimpleFS.CreateEffects

/-! # Removals on ledger and tree

A successful removal takes the node away together with the slot that bound it, or only the slot where
the record keeps a link.
-/
namespace SimpleFS
open Bytes Machine SlotTree

variable {m : Iom} {D E k b i j : ℕ} {x : List UInt8} {d : DirEntry} {found : Bool}

namespace Books.Ledger
variable {c : Books} (h : c.Ledger)
include h

theorem owned_bit (ho : c.Owns k b) : c.dbit b = true := by
  obtain ⟨b',ho',_,hb⟩ := h.own k ho.live ho.size
  rwa [ho'.unique_block h.clusterSize_pos ho] at hb

theorem release_empty (hk : 3 ≤ k) : (c.release k).Ledger := h.release hk c.dbit (fun _ _ _ ho => h.owned_bit ho)

/-- The block of the released inode goes with it. -/
theorem release_disown (hk : 3 ≤ k) (hkb : c.Owns k b) : ((c.release k).disown b).Ledger := by
  refine h.release hk (Function.update c.dbit b false) (fun l b' hl ho => ?_)
  have hne : b' ≠ b := by
    rintro rfl
    exact hl (h.distinct l k b' ho hkb)
  rw [Function.update_of_ne hne]
  exact h.owned_bit ho

end Books.Ledger

/-- A slot behind the dot entries that binds a name to a node. -/
structure Iom.Entry (m : Iom) (D i : ℕ) (x : List UInt8) (k : ℕ) : Prop where
  dir : m.tree.kind D = some .dir
  lo : 2 ≤ i
  lt : i < lab4DirEntryNum
  bound : m.tree.slot D i = some (x,k)

namespace Iom.Sane
variable (h : m.Sane)
include h

/-- A name other than the dot names is found behind the dot entries. -/
theorem entry_of_scan (hD : m.tree.kind D = some .dir) (hx : ValidName x) (hdot : x ≠ dotName) (hdd : x ≠ dotdotName)
    (hs : m.scan (lookupTest x) D = some (true,i)) : m.Entry D i x (m.slotIno (m.inode D) i) := by
  obtain ⟨hi,hb⟩ := Iom.Mounted.scan_found h.ledger hD hx.lt hs
  have hino : m.slotIno (m.inode D) i = (m.slotEntry D i).dIno.toNat := by rw [Iom.slotIno, h.ino_dir hD]
  rw [← hino] at hb
  refine ⟨hD,?_,hi,hb⟩
  by_contra hlt
  rcases (show i = 0 ∨ i = 1 by omega) with rfl | rfl
  · have := h.sound.self D hD
    rw [hb] at this
    exact hdot (congrArg Prod.fst (Option.some.inj this))
  · obtain ⟨p,hp⟩ := h.sound.up D hD
    rw [hb] at hp
    exact hdd (congrArg Prod.fst (Option.some.inj hp))

/-- The entry of a slot, marked deleted, leaves the slot empty. -/
theorem tree_clearSlot (hD : m.tree.kind D = some .dir) (hi : i < lab4DirEntryNum) :
    (m.unlinkEntry (slotAddr (m.inode D) i) d.deleted).tree = m.tree.setSlot D i none := by
  rw [h.slotAddr_eq hD, Iom.tree, books_unlinkEntry,
    entries_unlinkEntry h.mounted (hi.trans_le h.mounted.dirEntryNum_le), Books.tree_putEntry h.ledger hD hi, deleted_binding]
  rfl

theorem tree_dropFile (hD : m.tree.kind D = some .dir) (hi : i < lab4DirEntryNum) :
    (m.unlinkEmpty k (slotAddr (m.inode D) i) d.deleted).tree = m.tree.remove k D i := by
  rw [h.slotAddr_eq hD, Iom.tree, books_unlinkEmpty,
    entries_unlinkEmpty h.mounted (hi.trans_le h.mounted.dirEntryNum_le), Books.tree_release,
    Books.tree_putEntry h.ledger hD hi, deleted_binding]
  rfl

section Entry
variable (he : m.Entry D i x k)
include he

theorem entry_live : m.books.Live k ∧ 3 ≤ k := by
  obtain ⟨hk,hr⟩ := h.sound.target D i x k he.lo he.bound
  have hl : m.books.Live k := by
    by_contra hn
    exact hk (Books.kind_eq_none.mpr hn)
  have hr' : k ≠ 2 := hr
  have := hl.1
  exact ⟨hl,by omega⟩

theorem entry_slot_lt : i < m.clusterSize / lab4DirEntrySize := he.lt.trans_le h.mounted.dirEntryNum_le

omit he in
/-- A live record is as `RecordOk` asks. -/
theorem recordOk (hk : m.books.Live k) : m.RecordOk k := by
  refine ⟨h.ledger.ino_toNat hk,(h.ledger.live k hk).tail,fun hs => ?_⟩
  obtain ⟨b,ho,hle,_⟩ := h.ledger.own k hk hs
  exact ⟨b,ho.addr,hle⟩

theorem leaf_file (hk : m.tree.kind k = some .file) : Leaf m.tree k D i x :=
  ⟨he.lo,he.bound,fun _ _ => h.sound.slot_of_not_dir (by rw [hk]; decide)⟩

theorem leaf_dir (hk : m.tree.kind k = some .dir) (hempty : m.usedScan k = some (false,j)) : Leaf m.tree k D i x :=
  ⟨he.lo,he.bound,fun _ hj => Iom.Mounted.usedScan_empty h.ledger hk hempty hj⟩

theorem tree_unlinkEntry : (m.unlinkEntry (slotAddr (m.inode D) i) d.deleted).tree = m.tree.setSlot D i none :=
  h.tree_clearSlot he.dir he.lt

theorem unlinkEntry : (m.unlinkEntry (slotAddr (m.inode D) i) d.deleted).Sane :=
  ⟨h.mounted.writeEntry.flushAll,h.ledger,by rw [h.tree_unlinkEntry he]; exact h.sound.clear he.lo⟩

theorem tree_unlinkEmpty : (m.unlinkEmpty k (slotAddr (m.inode D) i) d.deleted).tree = m.tree.remove k D i :=
  h.tree_dropFile he.dir he.lt

theorem unlinkEmpty (hk : m.tree.kind k = some .file) :
    (m.unlinkEmpty k (slotAddr (m.inode D) i) d.deleted).Sane := by
  refine ⟨h.mounted.freeInode.writeEntry.flushAll,?_,?_⟩
  · rw [books_unlinkEmpty]
    exact h.ledger.release_empty (h.entry_live he).2
  · rw [h.tree_unlinkEmpty he]
    exact (h.leaf_file he hk).sound h.sound

theorem tree_unlinkFile (hk : m.tree.kind k = some .file) (hb : m.books.Owns k b) :
    (m.unlinkFile k b (slotAddr (m.inode D) i) d.deleted).tree = m.tree.remove k D i := by
  have hne : ∀ E, m.books.kind E = some .dir → m.books.block E ≠ b := by
    intro E hE
    refine h.ledger.block_ne_of_owns hb hE ?_
    rintro rfl
    cases hk.symm.trans hE
  rw [h.slotAddr_eq he.dir, Iom.tree, books_unlinkFile, entries_unlinkFile h.mounted (h.entry_slot_lt he),
    Books.tree_release]
  change (m.books.tree _).setNode k none (fun _ => none) = _
  rw [Books.tree_putEntry h.ledger he.dir he.lt, deleted_binding, Books.tree_fillBlock hne]
  rfl

theorem unlinkFile (hk : m.tree.kind k = some .file) (hb : m.books.Owns k b) :
    (m.unlinkFile k b (slotAddr (m.inode D) i) d.deleted).Sane := by
  refine ⟨h.mounted.freeBlock.writeDev.freeInode.writeEntry.flushAll,?_,?_⟩
  · rw [books_unlinkFile]
    exact h.ledger.release_disown (h.entry_live he).2 hb
  · rw [h.tree_unlinkFile he hk hb]
    exact (h.leaf_file he hk).sound h.sound

section RemoveDir
variable (hk : m.tree.kind k = some .dir) (hempty : m.usedScan k = some (false,j)) (hb : m.books.Owns k b)
include hk hempty hb

theorem tree_removeDir (par : ℕ) :
    (m.removeDir k b (slotAddr (m.inode D) i) d.deleted par).tree = m.tree.remove k D i := by
  have hDk := (h.leaf_dir he hk hempty).ne
  have hne : ∀ E, (m.books.release k).kind E = some .dir → (m.books.release k).block E ≠ b := by
    intro E hE
    have hEk : E ≠ k := by
      rintro rfl
      have hn : (m.books.release E).kind E = none := Books.kind_eq_none.mpr (fun hl => (Books.live_release.mp hl).1 rfl)
      rw [hn] at hE
      cases hE
    have hin : (m.books.release k).inode E = m.books.inode E := Books.store_of_ne hEk
    have hkind : (m.books.release k).kind E = m.books.kind E :=
      Books.kind_congr (by rw [Books.live_release]; simp [hEk]) (by rw [hin])
    have hblock : (m.books.release k).block E = m.books.block E := by
      unfold Books.block Books.addr
      rw [hin]
      rfl
    rw [hkind] at hE
    rw [hblock]
    exact h.ledger.block_ne_of_owns hb hE hEk
  have hblk : m.books.block D ≠ b := h.ledger.block_ne_of_owns hb he.dir hDk
  rw [h.slotAddr_eq he.dir, Iom.tree, books_removeDir, Books.tree_relink,
    entries_removeDir h.mounted (h.entry_slot_lt he), ← Books.fillBlock_putEntry hblk.symm]
  change (m.books.release k).tree _ = _
  rw [Books.tree_fillBlock hne, Books.tree_release, Books.tree_putEntry h.ledger he.dir he.lt, deleted_binding]
  rfl

theorem removeDir (par : ℕ) : (m.removeDir k b (slotAddr (m.inode D) i) d.deleted par).Sane := by
  refine ⟨h.mounted.freeInode.freeBlock.writeDev.writeEntry.addLink.flushAll,?_,?_⟩
  · rw [books_removeDir]
    exact (h.ledger.release_disown (h.entry_live he).2 hb).relink _
  · rw [h.tree_removeDir he hk hempty hb]
    exact (h.leaf_dir he hk hempty).sound h.sound

end RemoveDir

end Entry

end Iom.Sane

end SimpleFS
