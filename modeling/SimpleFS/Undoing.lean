import SimpleFS.DirectoryMap
import SimpleFS.WriteEffects

/-! # Removal undoes creation

A creation takes a clear bit, a zero record and an empty slot, a removal gives all three back. So a file
that was created, and perhaps written, and then unlinked leaves bitmaps, inode table and lookups as they
were, and so does a directory that was made and removed.
-/
namespace SimpleFS
open Bytes Machine Prog SlotTree

/-- Both bitmaps, the inode table and the lookups in the live directories are as they were. -/
structure Undone (s s' : Sys) : Prop where
  ibit : s'.iom.ibit = s.iom.ibit
  dbit : s'.iom.dbit = s.iom.dbit
  inode : s'.iom.inode = s.iom.inode
  lookups : ∀ {e e' : Env} {E : ℕ} {y : List UInt8}, e.Nominal → e'.Nominal → s.iom.LiveDir E →
    lookupIn e' s' E y = lookupIn e s E y

def Iom.withFileTable (m : Iom) (fileTable : ℕ → FileTable) : Iom := { m with sbi := { m.sbi with fileTable := fileTable } }

/-- A handle on inode `ino` whose size is a value of its type. -/
structure FileTable.On (ft : FileTable) (ino : UInt32) : Prop where
  ino : ft.ino = ino
  lo : -2^63 ≤ ft.size
  hi : ft.size < 2^63

variable {e e' : Env} {s s' t t' : Sys} {D k i b : ℕ} {x : List UInt8} {v : Inode}

theorem undone_of_books (h : s.iom.Accounted) (h' : s'.iom.Sane) (hb : s'.iom.books = s.iom.books)
    (ht : s'.iom.tree = s.iom.tree) : Undone s s' :=
  ⟨congrArg Books.ibit hb,congrArg Books.dbit hb,congrArg Books.inode hb,fun he he' hE =>
    lookupIn_of_tree he he' h.sane h' (congrArg Books.clusterSize hb) ht (h.kind_iff.mpr hE)⟩

/-- A block address of the new state, read in the old one. -/
theorem block_eq {q : ℕ} (hs : s.iom.Accounted) (hcs : t.iom.clusterSize = s.iom.clusterSize)
    (haddr : (v.iBlocks 0).toNat = s.iom.blockAddr b) (hq : (v.iBlocks 0).toNat = t.iom.blockAddr q) : q = b := by
  rw [blockAddr_congr hcs, haddr] at hq
  exact (Books.blockAddr_inj (c := s.iom.books) hs.ledger.clusterSize_pos hq).symm

/-! ## What a creation adds -/

/-- A node of kind `c` has been added to directory `D`: its number and its slot were unused. -/
structure Added (s t : Sys) (c : Kind) (D k i : ℕ) (x : List UInt8) : Prop where
  sane : t.iom.Sane
  vacant : Vacant shape s.iom.tree k D i
  tree : t.iom.tree = add shape s.iom.tree c k D i x
  clear : s.iom.ibit k = false
  lt : k < s.iom.inodeNum
  free : ∀ l, ¬s.iom.tree.Binds D x l

namespace Added
variable {c : Kind} (hs : s.iom.Accounted) (h : Added s t c D k i x)
include hs h

theorem zero : s.iom.inode k = Inode.zero := hs.free_zero (hs.ledger.behind_root h.clear) h.lt h.clear

theorem unique : Unique t.iom.tree := by
  rw [h.tree]
  exact h.vacant.unique dot_ne_dotdot hs.unique h.free

omit hs in
theorem bound : t.iom.tree.slot D i = some (x,k) := by
  rw [h.tree]
  exact slot_setSlot_self

omit hs in
theorem kind_new : t.iom.tree.kind k = some c := by
  rw [h.tree, add, kind_setSlot, kind_newNode, Function.update_self]

omit hs in
theorem kind_dir : t.iom.tree.kind D = some .dir := by
  rw [h.tree, add, kind_setSlot, kind_newNode, Function.update_of_ne h.vacant.ne]
  exact h.vacant.dir

theorem binds {l : ℕ} (hl : t.iom.tree.Binds D x l) : l = k := binds_unique (h.unique hs) hl ⟨i,h.bound⟩

theorem entry {j l : ℕ} (he : t.iom.Entry D j x l) : j = i ∧ l = k :=
  ⟨h.unique hs D j i x l k he.bound h.bound,h.binds hs ⟨j,he.bound⟩⟩

/-- The new name is none of the dot names, which the directory had bound before. -/
theorem not_dot : x ≠ dotName ∧ x ≠ dotdotName := by
  have hsound := hs.sane.sound
  constructor
  · rintro rfl
    exact h.free D ⟨0,hsound.self D h.vacant.dir⟩
  · rintro rfl
    obtain ⟨p,hp⟩ := hsound.up D h.vacant.dir
    exact h.free p ⟨1,hp⟩

end Added

/-! ## Files -/

/-- What the books of the new file may be: without data, or with one block that was free. -/
structure FileHeld (s t : Sys) (k : ℕ) (v : Inode) : Prop where
  links : v.iLinksCount = 1
  inodes : t.iom.InodeRoom 1
  books : t.iom.books = s.iom.books.take k v ∧ v.iSize = 0 ∨
    ∃ b, t.iom.books = (s.iom.books.take k v).own b ∧ v.iSize ≠ 0 ∧ s.iom.dbit b = false ∧
      b < 8 * 4096 ∧ (v.iBlocks 0).toNat = s.iom.blockAddr b ∧ t.iom.BlockRoom 1

namespace FileHeld
variable (hb : FileHeld s t k v)
include hb

theorem clusterSize : t.iom.clusterSize = s.iom.clusterSize := by
  rcases hb.books with ⟨hb,_⟩ | ⟨b,hb,_⟩ <;> exact congrArg Books.clusterSize hb

theorem record : t.iom.inode k = v := by
  rcases hb.books with ⟨hb,_⟩ | ⟨b,hb,_⟩
  · exact (congrFun (congrArg Books.inode hb) k).trans Books.store_self
  · exact (congrFun (congrArg Books.inode hb) k).trans Books.store_self

theorem releasable (hs : s.iom.Accounted) : t.iom.Releasable v := by
  refine ⟨hb.inodes,fun hz => ?_,fun hz q hq => ?_⟩
  · rcases hb.books with ⟨_,h0⟩ | ⟨b,_,_,_,_,_,hr⟩
    · exact absurd h0 hz
    · exact hr
  · rcases hb.books with ⟨_,h0⟩ | ⟨b,_,_,_,hlt,haddr,_⟩
    · exact absurd h0 hz
    · rw [hb.clusterSize, hs.cluster, block_eq hs hb.clusterSize haddr hq]
      exact hlt

end FileHeld

theorem Added.unlink (he : e.Nominal) (hs : s.iom.Accounted) (hx : ValidName x) (h : Added s t .file D k i x)
    (hb : FileHeld s t k v) : ∃ s', doUnlink (t.iom.inode D) x e t = some (lab4Success,s') ∧ Undone s s' := by
  have hrel : ∀ l, t.iom.tree.Binds D x l → t.iom.Releasable (t.iom.inode l) := by
    intro l hl
    rw [h.binds hs hl, hb.record]
    exact hb.releasable hs
  obtain ⟨hdot,hdd⟩ := h.not_dot hs
  obtain ⟨r,s',hrun,hU,hsucc⟩ := wp_false.mp (wp_unlinked (u := False)
    (Q := fun r s' => t.iom.Unlinked D x r s'.iom ∧ r = lab4Success) he h.sane h.kind_dir hx hdot hdd
    (fun hn => hn hrel) (fun r m' s' hU hb hs' => ⟨hs' ▸ hU,hb k ⟨i,h.bound⟩⟩))
  subst hsucc
  refine ⟨s',hrun,?_⟩
  have hsound := h.vacant.remove_add (c := .file) (x := x) hs.sane.sound
  generalize hr : lab4Success = r at hU
  generalize hm : s'.iom = m' at hU
  cases hU with
  | missing _ => exact absurd hr (by decide)
  | refused _ => exact absurd hr (by decide)
  | entry hE hl =>
    obtain ⟨rfl,rfl⟩ := h.entry hs hE
    rw [hb.record] at hl
    exact absurd hb.links hl
  | empty hE hl hz =>
    obtain ⟨rfl,rfl⟩ := h.entry hs hE
    rw [hb.record] at hz
    refine undone_of_books hs (hm ▸ h.sane.unlinkEmpty hE h.kind_new) ?_ ?_
    · rw [hm, books_unlinkEmpty]
      rcases hb.books with ⟨hb,_⟩ | ⟨b,_,hnz,_⟩
      · rw [hb]
        exact Books.release_take h.clear (h.zero hs)
      · exact absurd hz hnz
    · rw [hm, h.sane.tree_unlinkEmpty hE, h.tree, hsound]
  | @data k' i' q hE hl ho =>
    obtain ⟨rfl,rfl⟩ := h.entry hs hE
    refine undone_of_books hs (hm ▸ h.sane.unlinkFile hE h.kind_new ho) ?_ ?_
    · rw [hm, books_unlinkFile]
      rcases hb.books with ⟨_,h0⟩ | ⟨b,hbk,_,hclear,_,haddr,_⟩
      · exact absurd h0 (hb.record ▸ ho.size)
      · have hq : (v.iBlocks 0).toNat = t.iom.blockAddr q := by
          rw [← hb.record]
          exact ho.addr
        rw [block_eq hs hb.clusterSize haddr hq, hbk]
        have hown : ((s.iom.books.take k' v).own b).disown b = s.iom.books.take k' v := Books.disown_own hclear
        rw [hown]
        exact Books.release_take h.clear (h.zero hs)
    · rw [hm, h.sane.tree_unlinkFile hE h.kind_new ho, h.tree, hsound]

/-- A file has just been created. -/
structure FileCreated (s t : Sys) (D k i : ℕ) (x : List UInt8) (v : Inode) : Prop where
  added : Added s t .file D k i x
  record : FileRecord k v
  books : t.iom.books = s.iom.books.take k v
  inodes : t.iom.InodeRoom 1
  blocks : s.iom.BlockRoom 0 → t.iom.BlockRoom 0
  maxBlock : t.iom.maxBlock = s.iom.maxBlock

theorem FileCreated.held (h : FileCreated s t D k i x v) : FileHeld s t k v :=
  ⟨h.record.links,h.inodes,.inl ⟨h.books,h.record.size⟩⟩

/-- A write to the new file puts its data into a block that was free. -/
theorem FileCreated.write {ft : ℕ → FileTable} {fid size : ℕ} {buf : Mem} {w : ℤ} (he : e.Nominal) (hs : s.iom.Accounted)
    (hroom : s.iom.BlockRoom 0) (h : FileCreated s s' D k i x v) (ht : t.iom = s'.iom.withFileTable ft)
    (hft : (ft fid).On v.iIno) (hlo : 1 ≤ size) (hhi : size ≤ s.iom.clusterSize)
    (hrun : doWrite fid buf size 0 e t = some (w,t')) (hw : w ≠ lab4Error) :
    ∃ v', Added s t' .file D k i x ∧ FileHeld s t' k v' := by
  have hcs : s'.iom.clusterSize = s.iom.clusterSize := congrArg Books.clusterSize h.books
  have hino : v.iIno.toNat = k := by
    rw [h.record.ino]
    exact UInt32.toNat_ofNat_index hs.mounted h.added.lt
  have hnum : s'.iom.inodeNum = s.iom.inodeNum := by
    unfold Iom.inodeNum
    rw [hcs]
  -- the handle changes neither books nor tree
  have hsane : (t.iom.seekFile fid 0).Sane := by
    rw [ht]
    have hm := h.added.sane.mounted
    exact ⟨⟨hm.1,hm.2,hm.3,hm.4,hm.5,hm.6,hm.7,hm.8,hm.9,hm.10,hm.11,hm.12⟩,h.added.sane.ledger,h.added.sane.sound⟩
  have hbooks : (t.iom.seekFile fid 0).books = s.iom.books.take k v := by
    rw [← h.books, ht]
    rfl
  have htree : (t.iom.seekFile fid 0).tree = add shape s.iom.tree .file k D i x := by
    rw [← h.added.tree, ht]
    rfl
  have hhandle : t.iom.sbi.fileTable fid = ft fid := by
    rw [ht]
    rfl
  have hrec : t.iom.inode k = v := (congrFun (congrArg Books.inode hbooks) k).trans Books.store_self
  have hmt : t.iom.Mounted := by
    have hm := hsane.mounted
    exact ⟨hm.1,hm.2,hm.3,hm.4,hm.5,hm.6,hm.7,hm.8,hm.9,hm.10,hm.11,hm.12⟩
  have hk : (t.iom.sbi.fileTable fid).ino.toNat = k := by rw [hhandle, hft.ino, hino]
  have hcst : t.iom.clusterSize = s.iom.clusterSize := by
    rw [ht]
    exact hcs
  obtain ⟨b,hbr,hbm,hbit,hpost⟩ := (wp_firstWrite (v := v) (Q := fun w t' => w ≠ lab4Error → ∃ b, t.iom.BlockRoom (-1) ∧
      b < t.iom.maxBlock ∧ t.iom.dbit b = false ∧
      t'.iom = (t.iom.seekFile fid 0).firstWrite fid buf size b v (t.iom.appendSize fid size 0)) he.io hmt hlo
    (hcst ▸ hhi) (by rw [hk, hrec]) (by rw [ht, hino]; exact hnum ▸ h.added.lt) h.record.size (fun _ hn => absurd rfl hn)
    (fun s' b h1 h2 h3 h4 _ => ⟨b,h1,h2,h3,h4⟩)).elim hrun hw
  have hmax : t.iom.maxBlock = s.iom.maxBlock := by
    rw [ht]
    exact h.maxBlock
  have hlt : b < 8 * 4096 := by
    have := hs.blocks
    omega
  have hle : t.iom.blockAddr b + t.iom.clusterSize ≤ 2^31 := by
    unfold Iom.blockAddr
    rw [hcst, hs.cluster]
    omega
  have hgrow : 1 ≤ t.iom.appendSize fid size 0 ∧ t.iom.appendSize fid size 0 < 2^63 := by
    have := hs.cluster
    have := hft.lo
    have := hft.hi
    unfold Iom.appendSize
    rw [hhandle]
    split <;> omega
  have hfile : (t.iom.seekFile fid 0).tree.kind k = some .file := by
    rw [htree, add, kind_setSlot, kind_newNode, Function.update_self]
  obtain ⟨hsane',htree'⟩ : t'.iom.Sane ∧ t'.iom.tree = (t.iom.seekFile fid 0).tree := by
    rw [hpost]
    exact hsane.firstWrite hfile (hs.ledger.behind_root h.added.clear) h.record hino hbit hle (hcst ▸ hhi) hgrow.1 hgrow.2
  have hpb : t'.iom.books = ((t.iom.seekFile fid 0).books.store k
      (v.withData ((t.iom.seekFile fid 0).blockAddr b) (t.iom.appendSize fid size 0))).own b := by
    rw [hpost]
    exact books_firstWrite hino
  refine ⟨v.withData ((t.iom.seekFile fid 0).blockAddr b) (t.iom.appendSize fid size 0),⟨hsane',h.added.vacant,htree'.trans htree,h.added.clear,h.added.lt,h.added.free⟩,
    h.record.links,?_,.inr ⟨b,?_,Inode.withData_size hgrow.1 hgrow.2,?_,hlt,?_,?_⟩⟩
  · rw [hpost, inodeRoom_firstWrite, ht]
    exact h.inodes
  · rw [hpb, hbooks, Books.store_take]
  · rw [← hbit]
    exact (congrFun (congrArg Books.dbit hbooks) b).symm
  · have hb : (t.iom.seekFile fid 0).blockAddr b < 2^32 := lt_of_lt_of_le (show t.iom.blockAddr b < 2^31 by omega) (by decide)
    rw [Inode.withData_block hb]
    exact blockAddr_congr hcst
  · rw [hpost]
    refine (blockRoom_firstWrite (m := t.iom.seekFile fid 0) hbr).mpr ?_
    rw [ht]
    exact h.blocks hroom

/-! ## Directories -/

/-- A directory has just been made. -/
structure DirMade (s t : Sys) (D k b i : ℕ) (x : List UInt8) (v : Inode) : Prop where
  added : Added s t .dir D k i x
  record : DirRecord k (s.iom.blockAddr b) v
  addr_le : s.iom.blockAddr b + s.iom.clusterSize ≤ 2^31
  lt : b < 8 * 4096
  clear : s.iom.dbit b = false
  books : t.iom.books = ((s.iom.books.take k v).own b).relink (· + 1) D
  inodes : t.iom.InodeRoom 1
  blocks : t.iom.BlockRoom 1

namespace DirMade
variable (hs : s.iom.Accounted) (h : DirMade s t D k b i x v)
include h

theorem clusterSize : t.iom.clusterSize = s.iom.clusterSize := congrArg Books.clusterSize h.books

theorem inode_eq : t.iom.inode k = v := by
  refine (congrFun (congrArg Books.inode h.books) k).trans ((Books.store_of_ne h.added.vacant.ne.symm).trans ?_)
  exact Books.store_self

theorem addr_eq : (v.iBlocks 0).toNat = s.iom.blockAddr b := Iom.Sane.makeDir_addr h.addr_le h.record

include hs

theorem releasable : t.iom.Releasable v := by
  refine ⟨h.inodes,fun _ => h.blocks,fun _ q hq => ?_⟩
  rw [h.clusterSize, hs.cluster, block_eq hs h.clusterSize h.addr_eq hq]
  exact h.lt

omit hs in
/-- The new directory holds no entry but the dots. -/
theorem usedScan_new : ∃ j, t.iom.usedScan k = some (false,j) := by
  have hsane := h.added.sane
  obtain ⟨⟨found,j⟩,hj⟩ := Option.isSome_iff_exists.mp (hsane.mounted.usedScan_isSome hsane.ledger h.added.kind_new)
  cases found with
  | false => exact ⟨j,hj⟩
  | true =>
    obtain ⟨h2,hne⟩ := Iom.Mounted.usedScan_used hsane.ledger h.added.kind_new hj
    rw [h.added.tree, add, slot_setSlot_of_ne (.inl h.added.vacant.ne.symm), slot_newNode_self h2] at hne
    exact absurd rfl hne

theorem remove (he : e.Nominal) (hx : ValidName x) :
    ∃ s', doRmdir (t.iom.inode D) x e t = some (lab4Success,s') ∧ Undone s s' := by
  have ha := h.added
  obtain ⟨hdot,hdd⟩ := ha.not_dot hs
  have hdirs : ∀ l, t.iom.tree.Binds D x l → t.iom.tree.kind l = some .dir := by
    intro l hl
    rw [ha.binds hs hl]
    exact ha.kind_new
  have hrel : ∀ l, t.iom.tree.Binds D x l → t.iom.Releasable (t.iom.inode l) := by
    intro l hl
    rw [ha.binds hs hl, h.inode_eq]
    exact h.releasable hs
  obtain ⟨j,hempty⟩ := h.usedScan_new
  have hE0 : t.iom.Entry D i x k := ⟨ha.kind_dir,ha.vacant.lo,ha.vacant.hi,ha.bound⟩
  have hscan := ha.sane.mounted.scan_of_binds ha.sane.ledger ha.kind_dir (ha.unique hs) hx.lt ha.bound
  obtain ⟨r,s',hrun,hR,hsucc⟩ := wp_false.mp (wp_removedDir (u := False)
    (Q := fun r s' => t.iom.RemovedDir D x r s'.iom ∧ r = lab4Success) he ha.sane ha.kind_dir hx hdot hdd hdirs
    (fun hn => hn hrel) (fun r m' s' hR hr hs' => ⟨hs' ▸ hR,hr i k j hscan hE0 hempty⟩))
  subst hsucc
  refine ⟨s',hrun,?_⟩
  generalize hr : lab4Success = r at hR
  generalize hm : s'.iom = m' at hR
  cases hR with
  | missing _ => exact absurd hr (by decide)
  | refused _ hr' =>
    subst hr
    rcases hr' with hr' | hr'
    · exact absurd hr' (by decide)
    · exact absurd hr' (by decide)
  | @done k' i' q j' hE hk hemp ho =>
    obtain ⟨rfl,rfl⟩ := ha.entry hs hE
    refine undone_of_books hs (hm ▸ ha.sane.removeDir hE hk hemp ho D) ?_ ?_
    · have hq : (v.iBlocks 0).toNat = t.iom.blockAddr q := by
        rw [← h.inode_eq]
        exact ho.addr
      rw [hm, books_removeDir, block_eq hs h.clusterSize h.addr_eq hq, h.books]
      exact Books.undo_makeDir ha.vacant.ne ha.clear (ha.zero hs) h.clear
    · rw [hm, ha.sane.tree_removeDir hE hk hemp ho, ha.tree, ha.vacant.remove_add hs.sane.sound]

end DirMade

section Creating
variable (he : e.Nominal) (hs : s.iom.Accounted) (hD : s.iom.LiveDir D) (hx : ValidName x)
include he hs hD hx

/-- What a creation that succeeds has added. -/
theorem fileCreated {mode : ℕ} {o : Option Inode}
    (hrun : lab4Createfile (s.iom.inode D) x mode e s = some ((lab4Success,o),t)) :
    ∃ k i v, o = some v ∧ FileCreated s t D k i x v := by
  have hkind := hs.kind_iff.mpr hD
  obtain ⟨hC,hroom⟩ := (wp_created (Q := fun r s' => s.iom.Created D x r s'.iom ∧ (r.1 = lab4Success → s'.iom.InodeRoom 1))
    he hs.sane hkind hx (fun _ _ _ hc hr hs' => ⟨hs' ▸ hc,hs' ▸ hr⟩)).elim hrun
  generalize hr : (lab4Success,o) = r at hC
  generalize hm : t.iom = m' at hC
  cases hC with
  | «exists» _ => exact absurd (congrArg Prod.fst hr) (show lab4Success ≠ -eexist by decide)
  | refused _ => exact absurd (congrArg Prod.fst hr) (show lab4Success ≠ lab4Error by decide)
  | @done k i v found hfree hk hbit hv hf =>
    obtain rfl := hs.sane.found_slot hs.cluster hkind hf
    have hbind : (DirEntry.used (UInt32.ofNat k) 1 x).binding = some (x,k) := used_binding (hs.sane.index_lt hk) hx
    have htree := hs.sane.tree_createFile hkind hk hbit hv hf hbind
    refine ⟨k,i,v,congrArg Prod.snd hr,⟨?_,hs.sane.vacant hkind hbit hf,?_,hbit,hk,hfree⟩,hv,?_,hroom rfl,?_,?_⟩
    · rw [hm]
      exact hs.sane.createFile hkind hk hbit hv hf hbind
    · rw [hm, htree, if_pos rfl]
    · rw [hm, books_createFile]
    · rw [hm]
      exact blockRoom_createFile.mpr
    · rw [hm]
      exact fixed_maxBlock (fixed_createFile _ _ _ _)

/-- A directory has just been made. -/
theorem dirMade (hfit : s.iom.CountersFit) (hrun : doMkdir (s.iom.inode D) x e s = some (lab4Success,t)) :
    ∃ k b i v, DirMade s t D k b i x v := by
  have hkind := hs.kind_iff.mpr hD
  obtain ⟨hM,hroom⟩ := (wp_madeDir (Q := fun r s' => s.iom.MadeDir D x r s'.iom ∧
      (r = lab4Success → s'.iom.InodeRoom 1 ∧ s'.iom.BlockRoom 1))
    he hs.sane hkind hx (fun _ _ _ hc hr hs' => ⟨hs' ▸ hc,fun h0 => hs' ▸ hr h0 hfit⟩)).elim hrun
  generalize hr : lab4Success = r at hM
  generalize hm : t.iom = m' at hM
  cases hM with
  | «exists» _ => exact absurd hr (by decide)
  | @done k b i v found hfree hk hbit hbm hb _ hv hf =>
    obtain rfl := hs.sane.found_slot hs.cluster hkind hf
    have hbind : (DirEntry.used (UInt32.ofNat k) 0 x).binding = some (x,k) := used_binding (hs.sane.index_lt hk) hx
    have hlt : b < 8 * 4096 := lt_of_lt_of_le hbm hs.blocks
    have hle : s.iom.blockAddr b + s.iom.clusterSize ≤ 2^31 := by
      unfold Iom.blockAddr
      rw [hs.cluster]
      omega
    have htree := hs.sane.tree_makeDir hkind hk hbit hb hle hv hf hbind
    refine ⟨k,b,i,v,⟨?_,hs.sane.vacant hkind hbit hf,?_,hbit,hk,hfree⟩,hv,hle,hlt,hb,?_,(hroom rfl).1,(hroom rfl).2⟩
    · rw [hm]
      exact hs.sane.makeDir hkind hk hbit hb hle hv hf hbind
    · rw [hm, htree, if_pos rfl]
    · rw [hm, books_makeDir, hs.sane.ino_dir hkind]

omit hx in
/-- Both operations see to it that the name fits an entry. -/
theorem validName_of_createfile {mode : ℕ} {o : Option Inode} (hnul : (0 : UInt8) ∉ x)
    (hrun : lab4Createfile (s.iom.inode D) x mode e s = some ((lab4Success,o),t)) : ValidName x := by
  have hkind := hs.kind_iff.mpr hD
  have hlen : 1 ≤ x.length ∧ x.length < fnameSize := by
    refine (wp_lab4Createfile (Q := fun r _ => r.1 = lab4Success → 1 ≤ x.length ∧ x.length < fnameSize) he.io
      hs.mounted (hs.sane.parent hkind) (fun _ => trivial) (fun _ _ _ hr => ?_) (fun _ _ _ _ _ _ hr => ?_) (fun _ _ _ _ hr => ?_)
      (fun _ hn => absurd he.malloc hn) (fun _ _ _ _ _ h1 h2 _ _ _ _ _ _ _ _ _ => ⟨h1,h2⟩)).elim hrun rfl
    · exact absurd hr (by decide)
    · exact absurd hr (by decide)
    · exact absurd hr (by decide)
  exact ⟨hlen.1,hlen.2,hnul⟩

omit hx in
theorem validName_of_mkdir (hne : x ≠ []) (hnul : (0 : UInt8) ∉ x)
    (hrun : doMkdir (s.iom.inode D) x e s = some (lab4Success,t)) : ValidName x := by
  have hlen : x.length < fnameSize := by
    refine (wp_doMkdir (Q := fun r _ => r = lab4Success → x.length < fnameSize) he.io hs.mounted
      (hs.sane.parent (hs.kind_iff.mpr hD)) (fun _ _ _ _ _ _ hr => ?_) (fun _ hn => absurd he.malloc hn)
      (fun _ _ _ _ _ _ hlt _ _ _ _ _ _ _ _ _ _ _ _ _ => hlt)).elim hrun rfl
    exact absurd hr (by decide)
  exact ⟨List.length_pos_iff.mpr hne,hlen,hnul⟩

end Creating

/-- Removal undoes creation: of a file, of a file that has got its data, and of a directory. -/
theorem removal_undoes_creation (he : e.Nominal) (hs : s.iom.Accounted) (hfit : s.iom.CountersFit) (hD : s.iom.LiveDir D)
    (hne : x ≠ []) (hnul : (0 : UInt8) ∉ x) :
    (∀ {mode : ℕ} {o : Option Inode} {s1 : Sys}, lab4Createfile (s.iom.inode D) x mode e s = some ((lab4Success,o),s1) →
      ∃ v, o = some v ∧
        (∀ {e' : Env}, e'.Nominal →
          ∃ s', doUnlink (s1.iom.inode D) x e' s1 = some (lab4Success,s') ∧ Undone s s') ∧
        ∀ {e₂ e' : Env} {ft : ℕ → FileTable} {fid size : ℕ} {buf : Mem} {w : ℤ} {t s2 : Sys}, e₂.Nominal → e'.Nominal →
          t.iom = s1.iom.withFileTable ft → (ft fid).On v.iIno → 1 ≤ size → size ≤ s.iom.clusterSize →
          doWrite fid buf size 0 e₂ t = some (w,s2) → w ≠ lab4Error →
          ∃ s', doUnlink (s2.iom.inode D) x e' s2 = some (lab4Success,s') ∧ Undone s s') ∧
      ∀ {s1 : Sys}, doMkdir (s.iom.inode D) x e s = some (lab4Success,s1) → ∀ {e' : Env}, e'.Nominal →
        ∃ s', doRmdir (s1.iom.inode D) x e' s1 = some (lab4Success,s') ∧ Undone s s' := by
  constructor
  · intro mode o s1 hrun
    have hx := validName_of_createfile he hs hD hnul hrun
    obtain ⟨k,i,v,ho,hc⟩ := fileCreated he hs hD hx hrun
    refine ⟨v,ho,fun he' => hc.added.unlink he' hs hx hc.held,?_⟩
    intro e₂ e' ft fid size buf w t s2 he₂ he' ht hft hlo hhi hw hne
    obtain ⟨v',ha,hheld⟩ := hc.write he₂ hs hfit.blockRoom ht hft hlo hhi hw hne
    exact ha.unlink he' hs hx hheld
  · intro s1 hrun e' he'
    have hx := validName_of_mkdir he hs hD hne hnul hrun
    obtain ⟨k,b,i,v,hm⟩ := dirMade he hs hD hx hfit hrun
    exact hm.remove hs he' hx

theorem blankDisk_countersFit {s0 : Sys} (hrun : formatAndMount quietEnv (blankDisk 80) = some (true,s0)) :
    s0.iom.CountersFit := by
  have h : (formatAndMount quietEnv (blankDisk 80)).map (fun p => (p.2.iom.sbi.sbFreeInodes,p.2.iom.sbi.sbFreeBlocks)) =
      some (0,0) := by decide +kernel
  rw [hrun] at h
  obtain ⟨hi,hb⟩ := Prod.ext_iff.mp (Option.some.inj h)
  dsimp only at hi hb
  exact ⟨by omega,by omega⟩

/-- The file "f" is created, and a byte is written through handle 3. -/
def createAndWrite : M (ℤ × ℤ) := do
  let m ← getIom
  let (res,o) ← lab4Createfile (m.inode 2) [102] 0
  match o with
  | none => undefined
  | some v =>
    modifyIom (fun m => m.withFileTable (Function.update m.sbi.fileTable 3 (openedFile v oRdwr)))
    let w ← doWrite 3 (fun _ => 65) 1 0
    return (res,w)

set_option maxRecDepth 100000 in
/-- On a blank device, with the file "f", with a byte in it, and with the directory "f". -/
theorem removal_undoes_creation_blank : ∃ s0 v s1 s2 t s3 s4 s5 s6, formatAndMount quietEnv (blankDisk 80) = some (true,s0) ∧
    lab4Createfile (s0.iom.inode 2) [102] 0 quietEnv s0 = some ((lab4Success,some v),s1) ∧
    doUnlink (s1.iom.inode 2) [102] quietEnv s1 = some (lab4Success,s2) ∧ Undone s0 s2 ∧
    doWrite 3 (fun _ => 65) 1 0 quietEnv t = some (1,s3) ∧
    doUnlink (s3.iom.inode 2) [102] quietEnv s3 = some (lab4Success,s4) ∧ Undone s0 s4 ∧
    doMkdir (s0.iom.inode 2) [102] quietEnv s0 = some (lab4Success,s5) ∧
    doRmdir (s5.iom.inode 2) [102] quietEnv s5 = some (lab4Success,s6) ∧ Undone s0 s6 := by
  obtain ⟨s0,hrun,hw⟩ := blankDisk_whole
  have hc := hw.consistent
  have hcreate : ((formatAndMount >>= fun _ => createAndWrite) quietEnv (blankDisk 80)).map Prod.fst = some (lab4Success,1) := by
    decide +kernel
  have hmkdir : ((formatAndMount >>= fun _ => getIom >>= fun m => doMkdir (m.inode 2) [102]) quietEnv
      (blankDisk 80)).map Prod.fst = some lab4Success := by decide +kernel
  obtain ⟨⟨⟨res,w⟩,s3⟩,hq,heq⟩ := Option.map_eq_some_iff.mp hcreate
  obtain ⟨hres,hw1⟩ := Prod.mk.inj heq
  obtain ⟨⟨res',s5⟩,hq',rfl⟩ := Option.map_eq_some_iff.mp hmkdir
  rw [bind_apply, hrun] at hq hq'
  have hcalls : createAndWrite quietEnv s0 = some ((res,w),s3) := hq
  obtain ⟨m,_,hm,hcalls⟩ := exists_of_bind hcalls
  cases hm
  obtain ⟨⟨res,o⟩,s1,hfile,hcalls⟩ := exists_of_bind hcalls
  cases o with
  | none => cases hcalls
  | some v =>
    obtain ⟨_,t,ht,hcalls⟩ := exists_of_bind hcalls
    obtain ⟨w,s3',hwrite,hret⟩ := exists_of_bind hcalls
    cases ht
    cases hret
    subst hres hw1
    obtain ⟨hundo,hdir⟩ := removal_undoes_creation quietEnv_nominal hc.accounted (blankDisk_countersFit hrun) hc.root
      (x := [102]) (by decide) (by decide)
    obtain ⟨v',ho,hunlink,hunlink'⟩ := hundo hfile
    obtain rfl := Option.some.inj ho
    obtain ⟨s2,hu,hundone⟩ := hunlink quietEnv_nominal
    have hon : (Function.update s1.iom.sbi.fileTable 3 (openedFile v oRdwr) 3).On v.iIno := by
      rw [Function.update_self]
      exact ⟨rfl,v.iSize.le_toInt,v.iSize.toInt_lt⟩
    have hroom : 1 ≤ s0.iom.clusterSize := by
      rw [hw.cluster]
      decide
    obtain ⟨s4,hu',hundone'⟩ := @hunlink' _ quietEnv (Function.update s1.iom.sbi.fileTable 3 (openedFile v oRdwr)) _ _ _ _ _ _
      quietEnv_nominal quietEnv_nominal rfl hon le_rfl hroom hwrite (by decide)
    obtain ⟨s6,hr,hundone''⟩ := hdir hq' quietEnv_nominal
    exact ⟨s0,_,s1,s2,_,s3,s4,s5,s6,hrun,hfile,hu,hundone,hwrite,hu',hundone',hq',hr,hundone''⟩

end SimpleFS
