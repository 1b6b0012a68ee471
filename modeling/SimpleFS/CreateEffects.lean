import SimpleFS.TreeScan

/-! # Creations on ledger and tree

A successful creation is one change of the io manager. It keeps the ledger and adds one node to the tree,
bound to a free slot of its parent if there is one.
-/
namespace SimpleFS
open Bytes Machine SlotTree

/-- A mounted volume with a sound ledger and a sound tree. -/
structure Iom.Sane (m : Iom) : Prop where
  mounted : m.Mounted
  ledger : m.books.Ledger
  sound : Sound shape m.tree

variable {m : Iom} {D E k b i j : ℕ} {x : List UInt8} {v : Inode} {d : DirEntry} {found : Bool}

theorem FileRecord.live (h : FileRecord k v) : LiveRecord k v :=
  ⟨h.ino,.inl h.type,fun _ j _ => h.blocks j,fun ht => by rw [h.type] at ht; exact absurd ht (by decide)⟩

theorem DirRecord.live {a : ℕ} (h : DirRecord k a v) : LiveRecord k v :=
  ⟨h.ino,.inr h.type,fun _ => h.blocks,fun _ => h.size⟩

theorem used_binding {ver : UInt32} (hk : k < 2^32) (hx : ValidName x) :
    (DirEntry.used (UInt32.ofNat k) ver x).binding = some (x,k) := by
  rw [binding_of_used rfl]
  simp only [DirEntry.used, cstr_strcpyName hx.lt hx.noNul, UInt32.toNat_ofNat_of_lt' hk]

theorem deleted_binding : d.deleted.binding = none := binding_of_not_used (by
  change lab4DirDeleted ≠ lab4DirUsed
  decide)

namespace Iom.Sane
variable (h : m.Sane)
include h

theorem slotAddr_eq (hD : m.tree.kind D = some .dir) :
    slotAddr (m.inode D) i = m.blockAddr (m.books.block D) + lab4DirEntrySize * i :=
  congrArg (· + lab4DirEntrySize * i) (Iom.Mounted.dir_addr h.ledger hD).1

theorem ino_dir (hD : m.tree.kind D = some .dir) : (m.inode D).iIno.toNat = D :=
  h.ledger.ino_toNat ((Books.kind_eq_dir h.ledger).mp hD).1

theorem parent (hD : m.tree.kind D = some .dir) : m.Parent (m.inode D) := by
  have hs := Iom.Mounted.dir_size h.ledger hD
  have ha := Iom.Mounted.dir_addr h.ledger hD
  have hcs := h.mounted.cluster_le
  have hi := h.ino_dir hD
  refine ⟨by omega,by omega,?_,fun _ _ => ?_⟩
  · change m.dataAddr D < 2^31
    omega
  · rw [hi]
    omega

theorem index_lt (hk : k < m.inodeNum) : k < 2^32 := by
  have := h.mounted.inodeNum_le
  omega

/-- The slot a creation writes lies in the block of the directory, full or not: with 32 inodes a
directory is never full, and larger clusters have room behind the last slot. -/
theorem freeScan_lt (hD : m.tree.kind D = some .dir) (hf : m.freeScan (m.inode D) = some (found,i)) :
    i < m.clusterSize / lab4DirEntrySize := by
  have hn := h.mounted.dirEntryNum_le
  rcases h.mounted.freeScan_cases h.ledger hD h.sound hf with ⟨_,_,hi,_⟩ | ⟨_,rfl,hfull⟩
  · omega
  · rcases h.mounted.cluster with hcs | hcs
    · have hnode : ∀ k, m.tree.kind k ≠ none → k ≠ shape.root → k ∈ Finset.Ico 3 32 := by
        intro k hk hr
        have hlive : m.books.Live k := by
          by_contra hn
          exact hk (Books.kind_eq_none.mpr hn)
        have h2 : k < m.clusterSize / lab4InodeEntrySize := hlive.2.1
        rw [hcs] at h2
        have hr' : k ≠ 2 := hr
        have := hlive.1
        exact Finset.mem_Ico.mpr ⟨by omega,by simpa [lab4InodeEntrySize] using h2⟩
      obtain ⟨j,hj,hjn,hempty⟩ := h.sound.exists_empty D (Finset.Ico 3 32) hnode (by decide)
      exact absurd hempty (hfull j hj hjn)
    · unfold lab4DirEntryNum lab4DirEntrySize
      rcases hcs with hcs | hcs | hcs <;> omega

/-- With clusters of 4096 bytes a creation always finds a slot. -/
theorem found_slot (hcs : m.clusterSize = 4096) (hD : m.tree.kind D = some .dir)
    (hf : m.freeScan (m.inode D) = some (found,i)) : found = true := by
  have hlt := h.freeScan_lt hD hf
  rcases h.mounted.freeScan_cases h.ledger hD h.sound hf with ⟨hc,_⟩ | ⟨_,rfl,_⟩
  · exact hc
  · rw [hcs] at hlt
    exact absurd hlt (by decide)

omit h in
theorem kind_of_clear (hbit : m.ibit k = false) : m.tree.kind k = none :=
  Books.kind_eq_none.mpr (fun hl => Bool.false_ne_true (hbit.symm.trans hl.2.2))

omit h in
theorem dir_ne_of_clear (hD : m.tree.kind D = some .dir) (hbit : m.ibit k = false) : D ≠ k := by
  rintro rfl
  rw [kind_of_clear hbit] at hD
  cases hD

theorem vacant (hD : m.tree.kind D = some .dir) (hbit : m.ibit k = false)
    (hf : m.freeScan (m.inode D) = some (true,i)) : Vacant shape m.tree k D i := by
  rcases h.mounted.freeScan_cases h.ledger hD h.sound hf with ⟨_,h2,hi,hn⟩ | ⟨hc,_⟩
  · exact ⟨kind_of_clear hbit,hD,h2,hi,hn⟩
  · cases hc

/-! ## Creation of a file -/

section CreateFile
variable (hD : m.tree.kind D = some .dir) (hk : k < m.inodeNum) (hbit : m.ibit k = false) (hv : FileRecord k v)
include hD hk hbit hv

omit hD in
theorem ledger_createFile (a : ℕ) : (m.createFile k v a d).books.Ledger := by
  rw [books_createFile]
  exact h.ledger.take hk hbit hv.live m.books.dbit (fun _ hb => hb) (fun hn => absurd hv.size hn)

theorem tree_createFile (hf : m.freeScan (m.inode D) = some (found,i)) (hd : d.binding = some (x,k)) :
    (m.createFile k v (slotAddr (m.inode D) i) d).tree =
      if found = true then add shape m.tree .file k D i x else newNode shape m.tree .file k D := by
  have hk3 := h.ledger.behind_root hbit
  have hDk := dir_ne_of_clear hD hbit
  have hl := h.ledger_createFile hk hbit hv (d := d) 0
  rw [books_createFile] at hl
  have hD' : (m.books.take k v).kind D = some .dir := by
    rw [Books.kind_take (by omega) hk, Function.update_of_ne hDk]
    exact hD
  have htake := fun f => Books.tree_take_file (c := m.books) (f := f) (by omega : 2 ≤ k) hk hv.type D
  rw [h.slotAddr_eq hD, Iom.tree, books_createFile, entries_createFile h.mounted (h.freeScan_lt hD hf),
    ← Books.block_take (v := v) hDk]
  rcases h.mounted.freeScan_cases h.ledger hD h.sound hf with ⟨rfl,_,hi,_⟩ | ⟨rfl,rfl,_⟩
  · rw [Books.tree_putEntry hl hD' hi, htake, hd]
    rfl
  · rw [Books.putEntry_of_le le_rfl, htake]
    rfl

theorem createFile (hf : m.freeScan (m.inode D) = some (found,i)) (hd : d.binding = some (x,k)) :
    (m.createFile k v (slotAddr (m.inode D) i) d).Sane := by
  refine ⟨h.mounted.takeInode.setInode.writeEntry.addFreeInodes.flushSb.flushIbmap.flushItble,
    h.ledger_createFile hk hbit hv _,?_⟩
  rw [h.tree_createFile hD hk hbit hv hf hd]
  cases found with
  | true => exact (h.vacant hD hbit hf).sound h.sound
  | false =>
    rw [if_neg (by decide)]
    exact h.sound.newNode (kind_of_clear hbit) (by decide)

end CreateFile

/-! ## Creation of a directory -/

section MakeDir
variable (hD : m.tree.kind D = some .dir) (hk : k < m.inodeNum) (hbit : m.ibit k = false)
  (hb : m.dbit b = false) (hle : m.blockAddr b + m.clusterSize ≤ 2^31) (hv : DirRecord k (m.blockAddr b) v)
include hD hk hbit hb hle hv

omit h hD hk hbit hb in
theorem makeDir_addr : (v.iBlocks 0).toNat = m.books.blockAddr b := by
  rw [hv.block]
  change (UInt32.ofNat (m.blockAddr b)).toNat = m.blockAddr b
  exact UInt32.toNat_ofNat_of_lt' (by rw [UInt32.size]; omega)

omit hD in
theorem ledger_take_own : ((m.books.take k v).own b).Ledger := by
  have haddr := makeDir_addr hle hv
  refine h.ledger.take hk hbit hv.live (Function.update m.books.dbit b true) (fun c hc => ?_)
    (fun _ => ⟨b,haddr,hle,Function.update_self _ _ _,hb⟩)
  by_cases hcb : c = b
  · subst hcb
    exact Function.update_self _ _ _
  · rwa [Function.update_of_ne hcb]

omit hD in
theorem ledger_makeDir (a : ℕ) (par : UInt32) : (m.makeDir k b v a d par).books.Ledger := by
  rw [books_makeDir]
  exact (h.ledger_take_own hk hbit hb hle hv).relink _

theorem tree_makeDir (hf : m.freeScan (m.inode D) = some (found,i)) (hd : d.binding = some (x,k)) :
    (m.makeDir k b v (slotAddr (m.inode D) i) d (m.inode D).iIno).tree =
      if found = true then add shape m.tree .dir k D i x else newNode shape m.tree .dir k D := by
  have hk3 := h.ledger.behind_root hbit
  have hDlive := ((Books.kind_eq_dir h.ledger).mp hD).1
  have hDk := dir_ne_of_clear hD hbit
  have hl := h.ledger_take_own hk hbit hb hle hv
  have hD' : ((m.books.take k v).own b).kind D = some .dir := by
    change (m.books.take k v).kind D = _
    rw [Books.kind_take (by omega) hk, Function.update_of_ne hDk]
    exact hD
  have hino : (m.inode D).iIno = UInt32.ofNat D := (h.ledger.live D hDlive).ino
  have hkn := h.index_lt hk
  have hDn := h.index_lt hDlive.2.1
  have htake := fun f => Books.tree_take_dir (f := f) h.ledger (by omega : 2 ≤ k) hk hv.type (makeDir_addr hle hv) hb
    (fun i hi => Books.newDirArea_binding hkn hDn hi)
  have hblk : m.books.block D ≠ b := h.ledger.block_ne_of_clear hb hD
  rw [h.slotAddr_eq hD, Iom.tree, books_makeDir, Books.tree_relink,
    entries_makeDir h.mounted (h.freeScan_lt hD hf), Books.fillBlock_putEntry hblk.symm, hino]
  rcases h.mounted.freeScan_cases h.ledger hD h.sound hf with ⟨rfl,_,hi,_⟩ | ⟨rfl,rfl,_⟩
  · rw [← Books.block_take (v := v) hDk]
    refine (Books.tree_putEntry hl hD' hi).trans ?_
    rw [hd]
    exact congrArg (fun t => SlotTree.setSlot t D i (some (x,k))) (htake m.entries)
  · rw [Books.putEntry_of_le le_rfl]
    exact htake m.entries

theorem makeDir (hf : m.freeScan (m.inode D) = some (found,i)) (hd : d.binding = some (x,k)) :
    (m.makeDir k b v (slotAddr (m.inode D) i) d (m.inode D).iIno).Sane := by
  refine ⟨h.mounted.takeInode.takeBlock.setBlknr.setInode.writeEntry.writeDev.addLink.flushAll,
    h.ledger_makeDir hk hbit hb hle hv _ _,?_⟩
  rw [h.tree_makeDir hD hk hbit hb hle hv hf hd]
  cases found with
  | true => exact (h.vacant hD hbit hf).sound h.sound
  | false =>
    rw [if_neg (by decide)]
    exact h.sound.newNode (kind_of_clear hbit) (by decide)

end MakeDir

end Iom.Sane

end SimpleFS
