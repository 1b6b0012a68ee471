import SimpleFS.Updates

/-! # Removals commute, and unlink erases

Two removals touch different bits, records, blocks and slots, so their order does not matter. A removed
file takes the bytes of its block with it: they have no influence on the state it leaves.
-/
namespace SimpleFS
open Bytes Machine Prog SlotTree

/-- The updates that remove node `k`, named by slot `i` of `D`. -/
def Iom.removal (m : Iom) (k D i : ℕ) : List Update :=
  let b := m.books.block k
  let wipe : Update := .write (m.blockAddr b) m.clusterSize zeros
  let entry : Update := .write (slotAddr (m.inode D) i) lab4DirEntrySize (dirEntryCodec.enc (m.slotEntry D i).deleted)
  if m.tree.kind k = some .dir then [.freeInode k,.freeBlock b,wipe,entry,.dropLink D]
  else if (m.inode k).iSize = 0 then [.freeInode k,entry]
  else [.freeBlock b,wipe,.freeInode k,entry]

/-- The request removes `k`, which slot `i` of `D` names: a file with this one link or an empty directory. -/
structure Iom.Target (m : Iom) (q : Request) (k D i : ℕ) (x : List UInt8) : Prop where
  name : ValidName x
  leaf : Leaf m.tree k D i x
  kind : m.tree.kind k = some .file ∧ q = .unlink D x ∧ (m.inode k).iLinksCount = 1 ∨
    m.tree.kind k = some .dir ∧ q = .rmdir D x

/-- What the removal of `k` from slot `i` of `D` leaves of the other nodes. -/
structure Iom.RemovedAt (m m' : Iom) (k D i : ℕ) : Prop where
  sane : m'.Sane
  tree : m'.tree = m.tree.remove k D i
  clusterSize : m'.clusterSize = m.clusterSize
  inode : ∀ l, l ≠ k → l ≠ D → m'.inode l = m.inode l
  parent : (m'.inode D).iBlocks = (m.inode D).iBlocks
  entry : ∀ E j, m.tree.kind E = some .dir → E ≠ k → j < lab4DirEntryNum → ¬(E = D ∧ j = i) →
    m'.slotEntry E j = m.slotEntry E j
  inodeRoom : m.InodeRoom 1 → m.InodeRoom 2 → m'.InodeRoom 1
  blockRoom : m.BlockRoom 1 → m.BlockRoom 2 → m'.BlockRoom 1

variable {m m' : Iom} {q : Request} {k l D E i j b : ℕ} {x y : List UInt8}

theorem inodeRoom_freeInode {c : ℤ} (h : m.InodeRoom 1) : (m.freeInode k).InodeRoom c ↔ m.InodeRoom (1 + c) :=
  inodeRoom_addFreeInodes (m := (m.setIbmap (clearBit m.ibmap k)).setInode k Inode.zero) h

theorem blockRoom_freeBlock {c : ℤ} (h : m.BlockRoom 1) : (m.freeBlock b).BlockRoom c ↔ m.BlockRoom (1 + c) :=
  blockRoom_addFreeBlocks (m := m.setDbmap (clearBit m.dbmap b)) h

/-! ## The updates of a removal -/

namespace Iom.Sane
variable (h : m.Sane)
include h

omit h in
theorem removal_empty (hk : m.tree.kind k = some .file) (hz : (m.inode k).iSize = 0) :
    m.unlinkEmpty k (slotAddr (m.inode D) i) (m.slotEntry D i).deleted = (m.updates (m.removal k D i)).flushAll := by
  have hn : m.tree.kind k ≠ some .dir := by rw [hk]; decide
  rw [removal, if_neg hn, if_pos hz]
  rfl

theorem removal_data (hk : m.tree.kind k = some .file) (ho : m.books.Owns k b) :
    m.unlinkFile k b (slotAddr (m.inode D) i) (m.slotEntry D i).deleted = (m.updates (m.removal k D i)).flushAll := by
  have hn : m.tree.kind k ≠ some .dir := by rw [hk]; decide
  rw [removal, if_neg hn, if_neg (show (m.inode k).iSize ≠ 0 from ho.size), ho.block_eq h.ledger.clusterSize_pos]
  rfl

theorem removal_dir (hk : m.tree.kind k = some .dir) (ho : m.books.Owns k b) :
    m.removeDir k b (slotAddr (m.inode D) i) (m.slotEntry D i).deleted D = (m.updates (m.removal k D i)).flushAll := by
  rw [removal, if_pos hk, ho.block_eq h.ledger.clusterSize_pos]
  rfl

/-! ## What it leaves -/

theorem slotEntry_congr (h' : m'.Sane) (hE : m.tree.kind E = some .dir) (hE' : m'.tree.kind E = some .dir)
    (hcs : m'.clusterSize = m.clusterSize) (hb : (m'.inode E).iBlocks = (m.inode E).iBlocks) (hj : j < lab4DirEntryNum)
    (he : m'.entries (m.books.block E) j = m.entries (m.books.block E) j) : m'.slotEntry E j = m.slotEntry E j := by
  have hblock : m'.books.block E = m.books.block E := by
    change ((m'.inode E).iBlocks 0).toNat / m'.clusterSize - 4 = ((m.inode E).iBlocks 0).toNat / m.clusterSize - 4
    rw [hb, hcs]
  rw [Iom.Mounted.slotEntry_eq h'.ledger hE' hj, Iom.Mounted.slotEntry_eq h.ledger hE hj, hblock, he]

/-- The slots of the other directories, and the other slots of this one, are not written. -/
theorem removedAt_entry {f : ℕ → ℕ → DirEntry} {d : DirEntry} (h' : m'.Sane) (ht : m'.tree = m.tree.remove k D i)
    (hcs : m'.clusterSize = m.clusterSize) (hD : m.tree.kind D = some .dir)
    (hb : ∀ E, E ≠ k → (m'.inode E).iBlocks = (m.inode E).iBlocks)
    (he : m'.entries = putEntry f (m.books.block D) i d)
    (hf : ∀ E, m.tree.kind E = some .dir → E ≠ k → f (m.books.block E) = m.entries (m.books.block E))
    (hE : m.tree.kind E = some .dir) (hEk : E ≠ k) (hj : j < lab4DirEntryNum) (hne : ¬(E = D ∧ j = i)) :
    m'.slotEntry E j = m.slotEntry E j := by
  have hkind : m'.tree.kind E = some .dir := by rw [ht, SlotTree.remove, kind_setNode_of_ne hEk, kind_setSlot, hE]
  refine h.slotEntry_congr h' hE hkind hcs (hb E hEk) hj ?_
  rw [he, putEntry, if_neg, hf E hE hEk]
  rintro ⟨hbl,hji,_⟩
  exact hne ⟨h.ledger.block_inj hE hD hbl,hji⟩

/-- The records of the other nodes stay, but for the links of one. -/
theorem removedAt {f : ℕ → ℕ → DirEntry} {d : DirEntry} (h' : m'.Sane) (ht : m'.tree = m.tree.remove k D i)
    (hcs : m'.clusterSize = m.clusterSize) (hD : m.tree.kind D = some .dir)
    (hin : ∀ l, l ≠ k → l ≠ D → m'.inode l = m.inode l) (hpar : (m'.inode D).iBlocks = (m.inode D).iBlocks)
    (he : m'.entries = putEntry f (m.books.block D) i d)
    (hf : ∀ E, m.tree.kind E = some .dir → E ≠ k → f (m.books.block E) = m.entries (m.books.block E))
    (hi : m.InodeRoom 1 → m.InodeRoom 2 → m'.InodeRoom 1) (hb : m.BlockRoom 1 → m.BlockRoom 2 → m'.BlockRoom 1) :
    m.RemovedAt m' k D i := by
  refine ⟨h',ht,hcs,hin,hpar,fun E j hE hEk hj hne => ?_,hi,hb⟩
  refine h.removedAt_entry h' ht hcs hD (fun E hEk => ?_) he hf hE hEk hj hne
  by_cases hED : E = D
  · rw [hED, hpar]
  · rw [hin E hEk hED]

theorem fillBlock_of_dir {g : ℕ → DirEntry} (ho : m.books.Owns k b) (hE : m.tree.kind E = some .dir) (hEk : E ≠ k) :
    fillBlock m.entries b g (m.books.block E) = m.entries (m.books.block E) := by
  funext j
  exact if_neg (fun hc => h.ledger.block_ne_of_owns ho hE hEk hc.1)

section Entry
variable {d : DirEntry} (he : m.Entry D i x k)
include he

theorem removedAt_empty (hk : m.tree.kind k = some .file) :
    m.RemovedAt (m.unlinkEmpty k (slotAddr (m.inode D) i) d.deleted) k D i := by
  have hDk : D ≠ k := (h.leaf_file (x := x) he hk).ne
  have hin : ∀ l, l ≠ k → (m.unlinkEmpty k (slotAddr (m.inode D) i) d.deleted).inode l = m.inode l := fun l hl =>
    (congrFun (congrArg Books.inode (books_unlinkEmpty m k _ _)) l).trans (Books.store_of_ne hl)
  have hent : (m.unlinkEmpty k (slotAddr (m.inode D) i) d.deleted).entries =
      putEntry m.entries (m.books.block D) i d.deleted := by
    rw [h.slotAddr_eq he.dir]
    exact entries_unlinkEmpty h.mounted (h.entry_slot_lt he)
  refine h.removedAt (h.unlinkEmpty he hk) (h.tree_unlinkEmpty he) rfl he.dir (fun l hl _ => hin l hl)
    (by rw [hin D hDk]) hent (fun _ _ _ => rfl) (fun h1 h2 => ?_) (fun h1 _ => ?_)
  · exact (inodeRoom_freeInode h1).mpr h2
  · exact (blockRoom_freeInode (k := k)).mpr h1

theorem removedAt_data (hk : m.tree.kind k = some .file) (ho : m.books.Owns k b) :
    m.RemovedAt (m.unlinkFile k b (slotAddr (m.inode D) i) d.deleted) k D i := by
  have hDk : D ≠ k := (h.leaf_file (x := x) he hk).ne
  have hin : ∀ l, l ≠ k → (m.unlinkFile k b (slotAddr (m.inode D) i) d.deleted).inode l = m.inode l := fun l hl =>
    (congrFun (congrArg Books.inode (books_unlinkFile m k b _ _)) l).trans (Books.store_of_ne hl)
  have hent : (m.unlinkFile k b (slotAddr (m.inode D) i) d.deleted).entries =
      putEntry (fillBlock m.entries b (fun i => entryAt zeros i)) (m.books.block D) i d.deleted := by
    rw [h.slotAddr_eq he.dir]
    exact entries_unlinkFile h.mounted (h.entry_slot_lt he)
  refine h.removedAt (h.unlinkFile he hk ho) (h.tree_unlinkFile he hk ho)
    (fixed_cluster (fixed_unlinkFile k b _ _)) he.dir (fun l hl _ => hin l hl) (by rw [hin D hDk]) hent
    (fun E hE hEk => h.fillBlock_of_dir ho hE hEk) (fun h1 h2 => ?_) (fun h1 h2 => ?_)
  · exact (inodeRoom_freeInode (m := m.wipeBlock b) ((inodeRoom_freeBlock (k := b)).mpr h1)).mpr
      ((inodeRoom_freeBlock (k := b)).mpr h2)
  · exact (blockRoom_freeInode (m := m.wipeBlock b) (k := k)).mpr ((blockRoom_freeBlock (b := b) h1).mpr h2)

theorem removedAt_dir (hk : m.tree.kind k = some .dir) (hempty : m.usedScan k = some (false,j)) (ho : m.books.Owns k b) :
    m.RemovedAt (m.removeDir k b (slotAddr (m.inode D) i) d.deleted D) k D i := by
  have hDk : D ≠ k := (h.leaf_dir (x := x) he hk hempty).ne
  have hbooks := congrArg Books.inode (books_removeDir m k b (slotAddr (m.inode D) i) d.deleted D)
  have hin : ∀ l, l ≠ k → ((m.books.release k).disown b).inode l = m.inode l := fun l hl => Books.store_of_ne hl
  have hent : (m.removeDir k b (slotAddr (m.inode D) i) d.deleted D).entries =
      putEntry (fillBlock m.entries b (fun i => entryAt zeros i)) (m.books.block D) i d.deleted := by
    rw [h.slotAddr_eq he.dir]
    exact entries_removeDir h.mounted (h.entry_slot_lt he) D
  refine h.removedAt (h.removeDir he hk hempty ho D) (h.tree_removeDir he hk hempty ho D)
    (fixed_cluster (fixed_removeDir k b _ _ D)) he.dir (fun l hl hlD => ?_) ?_ hent
    (fun E hE hEk => h.fillBlock_of_dir ho hE hEk) (fun h1 h2 => ?_) (fun h1 h2 => ?_)
  · exact (congrFun hbooks l).trans ((Books.store_of_ne hlD).trans (hin l hl))
  · have hpar : (((m.books.release k).disown b).inode D).iBlocks = (m.inode D).iBlocks := by rw [hin D hDk]
    exact (congrArg Inode.iBlocks ((congrFun hbooks D).trans Books.store_self)).trans hpar
  · exact (inodeRoom_freeBlock (m := m.freeInode k) (k := b)).mpr ((inodeRoom_freeInode h1).mpr h2)
  · exact (blockRoom_freeBlock (m := m.freeInode k) (blockRoom_freeInode.mpr h1)).mpr (blockRoom_freeInode.mpr h2)

end Entry

end Iom.Sane

/-! ## Running one -/

section Run
variable {e : Env} {s : Sys} {u : Prop} (he : e.Nominal) (h : s.iom.Sane) (hu : Unique s.iom.tree)
  (ht : s.iom.Target q k D i x)
include h hu ht

/-- The slot is behind the dot entries, so it does not hold their names. -/
theorem target_entry : s.iom.Entry D i x k ∧ x ≠ dotName ∧ x ≠ dotdotName := by
  have hl := ht.leaf
  obtain ⟨hD,hi⟩ := h.sound.dir D i _ hl.bound
  refine ⟨⟨hD,hl.lo,hi,hl.bound⟩,?_,?_⟩
  · rintro rfl
    have := hu D i 0 _ k D hl.bound (h.sound.self D hD)
    have := hl.lo
    omega
  · rintro rfl
    obtain ⟨p,hp⟩ := h.sound.up D hD
    have := hu D i 1 _ k p hl.bound hp
    have := hl.lo
    omega

include he

/-- The run of a request that removes something is its updates and a flush. -/
theorem wp_target (hr : ¬s.iom.Releasable (s.iom.inode k) → u) :
    wp u q.run (fun r t => r = lab4Success ∧ t.iom = (s.iom.updates (s.iom.removal k D i)).flushAll ∧
      s.iom.RemovedAt t.iom k D i) e s := by
  obtain ⟨hE,hdot,hdd⟩ := target_entry h hu ht
  have hbinds : ∀ l, s.iom.tree.Binds D x l → l = k := fun l hl => binds_unique hu hl ⟨i,hE.bound⟩
  have hent : ∀ {j l}, s.iom.Entry D j x l → j = i ∧ l = k := fun hj =>
    ⟨hu D _ i x _ k hj.bound hE.bound,hbinds _ ⟨_,hj.bound⟩⟩
  have hroom : ¬(∀ l, s.iom.tree.Binds D x l → s.iom.Releasable (s.iom.inode l)) → u :=
    fun hn => hr (fun hk => hn (fun l hl => hbinds l hl ▸ hk))
  rcases ht.kind with ⟨hk,rfl,hlinks⟩ | ⟨hk,rfl⟩
  · rw [Request.run, wp_bind, wp_getIom]
    refine wp_unlinked he h hE.dir ht.name hdot hdd hroom (fun r m' t hU hsucc hs' => ?_)
    have hsucc := hsucc k ⟨i,hE.bound⟩
    cases hU with
    | missing hn => exact absurd ⟨i,hE.bound⟩ (hn k)
    | refused _ => exact absurd hsucc (by decide)
    | entry hj hl =>
      obtain ⟨rfl,rfl⟩ := hent hj
      exact absurd hlinks hl
    | empty hj _ hz =>
      obtain ⟨rfl,rfl⟩ := hent hj
      exact ⟨rfl,by rw [hs', Iom.Sane.removal_empty hk hz],hs' ▸ h.removedAt_empty hj hk⟩
    | data hj _ ho =>
      obtain ⟨rfl,rfl⟩ := hent hj
      exact ⟨rfl,by rw [hs', h.removal_data hk ho],hs' ▸ h.removedAt_data hj hk ho⟩
  · rw [Request.run, wp_bind, wp_getIom]
    have hdirs : ∀ l, s.iom.tree.Binds D x l → s.iom.tree.kind l = some .dir := fun l hl => hbinds l hl ▸ hk
    obtain ⟨⟨found,j⟩,hj⟩ := Option.isSome_iff_exists.mp (h.mounted.usedScan_isSome h.ledger hk)
    have hempty : s.iom.usedScan k = some (false,j) := by
      cases found with
      | false => exact hj
      | true =>
        obtain ⟨h2,hne⟩ := Iom.Mounted.usedScan_used h.ledger hk hj
        exact absurd (ht.leaf.empty j h2) hne
    have hscan := h.mounted.scan_of_binds h.ledger hE.dir hu ht.name.lt hE.bound
    refine wp_removedDir he h hE.dir ht.name hdot hdd hdirs hroom (fun r m' t hR hsucc hs' => ?_)
    have hsucc := hsucc i k j hscan hE hempty
    cases hR with
    | missing hn => exact absurd ⟨i,hE.bound⟩ (hn k)
    | refused _ hr' =>
      subst hsucc
      rcases hr' with hr' | hr'
      · exact absurd hr' (by decide)
      · exact absurd hr' (by decide)
    | done hE' hk' hempty' ho =>
      obtain ⟨rfl,rfl⟩ := hent hE'
      exact ⟨rfl,by rw [hs', h.removal_dir hk ho],hs' ▸ h.removedAt_dir hE' hk hempty' ho⟩

end Run

/-! ## Two of them -/

section Two
variable {q' : Request} (h : m.Sane) (ht : m.Target q k D i x) (ht' : m.Target q' l E j y) (hkl : k ≠ l) (hkE : k ≠ E)
  (hlD : l ≠ D)
include h ht ht' hkl hkE hlD

omit ht' hlD in
/-- A removal leaves the other target as it is, and so what its removal has to do. -/
theorem Iom.RemovedAt.target (hr : m.RemovedAt m' k D i) (ht' : m.Target q' l E j y) (hlD : l ≠ D) :
    m'.Target q' l E j y ∧ m'.removal l E j = m.removal l E j ∧ m'.inode l = m.inode l := by
  have hin : m'.inode l = m.inode l := hr.inode l hkl.symm hlD
  have hkind : m'.tree.kind l = m.tree.kind l := by rw [hr.tree, SlotTree.remove, kind_setNode_of_ne hkl.symm, kind_setSlot]
  have hne : ¬(E = D ∧ j = i) := by
    rintro ⟨rfl,rfl⟩
    exact hkl (Prod.ext_iff.mp (Option.some.inj (ht.leaf.bound.symm.trans ht'.leaf.bound))).2
  obtain ⟨hE,hj⟩ := h.sound.dir E j _ ht'.leaf.bound
  have hleaf : Leaf m'.tree l E j y := by
    refine ⟨ht'.leaf.lo,?_,fun p hp => ?_⟩
    · rw [hr.tree, SlotTree.remove, slot_setNode_of_ne hkE.symm, slot_setSlot_of_ne (by tauto), ht'.leaf.bound]
    · rw [hr.tree, SlotTree.remove, slot_setNode_of_ne hkl.symm, slot_setSlot_of_ne (.inl hlD), ht'.leaf.empty p hp]
  have hblocks : (m'.inode E).iBlocks = (m.inode E).iBlocks := by
    by_cases hED : E = D
    · rw [hED, hr.parent]
    · rw [hr.inode E hkE.symm hED]
  have hblock : m'.books.block l = m.books.block l := by
    change ((m'.inode l).iBlocks 0).toNat / m'.clusterSize - 4 = ((m.inode l).iBlocks 0).toNat / m.clusterSize - 4
    rw [hin, hr.clusterSize]
  have hslot : slotAddr (m'.inode E) j = slotAddr (m.inode E) j := by rw [slotAddr, hblocks, slotAddr]
  refine ⟨⟨ht'.name,hleaf,?_⟩,?_,hin⟩
  · rw [hkind, hin]
    exact ht'.kind
  · have haddr : m'.blockAddr (m.books.block l) = m.blockAddr (m.books.block l) := blockAddr_congr hr.clusterSize
    unfold Iom.removal
    dsimp only
    rw [hkind, hin, hblock, hslot, hr.clusterSize, haddr, hr.entry E j hE hkE.symm hj hne]

omit ht' hkl hkE hlD in
/-- The updates of a removal, and whose block it is that is wiped. -/
theorem mem_removal {u : Update} (hu : u ∈ m.removal k D i) : u = .freeInode k ∨ u = .freeBlock (m.books.block k) ∨
    u = .dropLink D ∨ (u = .write (m.blockAddr (m.books.block k)) m.clusterSize zeros ∧ m.books.Owns k (m.books.block k)) ∨
    u = .write (slotAddr (m.inode D) i) lab4DirEntrySize (dirEntryCodec.enc (m.slotEntry D i).deleted) := by
  unfold Iom.removal at hu
  dsimp only at hu
  split at hu
  · next hk =>
    have ho := (h.ledger.owns_dir hk).1
    simp only [List.mem_cons, List.not_mem_nil, or_false] at hu
    rcases hu with hu | hu | hu | hu | hu
    · exact .inl hu
    · exact .inr (.inl hu)
    · exact .inr (.inr (.inr (.inl ⟨hu,ho⟩)))
    · exact .inr (.inr (.inr (.inr hu)))
    · exact .inr (.inr (.inl hu))
  · next hk =>
    split at hu
    · simp only [List.mem_cons, List.not_mem_nil, or_false] at hu
      rcases hu with hu | hu
      · exact .inl hu
      · exact .inr (.inr (.inr (.inr hu)))
    · next hz =>
      have ho : m.books.Owns k (m.books.block k) := by
        have hfile : m.tree.kind k = some .file := by
          rcases ht.kind with ⟨hf,_⟩ | ⟨hd,_⟩
          · exact hf
          · exact absurd hd hk
        obtain ⟨b,ho,_⟩ := h.ledger.own k (Books.kind_eq_file.mp hfile).1 hz
        rwa [ho.block_eq h.ledger.clusterSize_pos]
      simp only [List.mem_cons, List.not_mem_nil, or_false] at hu
      rcases hu with hu | hu | hu | hu
      · exact .inr (.inl hu)
      · exact .inr (.inr (.inr (.inl ⟨hu,ho⟩)))
      · exact .inl hu
      · exact .inr (.inr (.inr (.inr hu)))

omit h ht ht' hkl hkE hlD in
/-- Two blocks do not meet. -/
theorem block_apart {b c : ℕ} (hbc : b ≠ c) :
    m.blockAddr b + m.clusterSize ≤ m.blockAddr c ∨ m.blockAddr c + m.clusterSize ≤ m.blockAddr b := by
  unfold Iom.blockAddr
  rcases Nat.lt_or_gt_of_ne hbc with hlt | hlt
  · exact .inl (blockAddr_le_of_lt m.clusterSize hlt)
  · exact .inr (blockAddr_le_of_lt m.clusterSize hlt)

omit ht ht' hkl hkE hlD in
/-- A slot lies in the block of its directory. -/
theorem slot_apart (hD : m.tree.kind D = some .dir) (hi : i < lab4DirEntryNum) (hb : m.books.block D ≠ b) :
    m.blockAddr b + m.clusterSize ≤ slotAddr (m.inode D) i ∨ slotAddr (m.inode D) i + lab4DirEntrySize ≤ m.blockAddr b := by
  have hs := h.mounted.slot_in_block (hi.trans_le h.mounted.dirEntryNum_le)
  have := block_apart (m := m) hb
  rw [h.slotAddr_eq hD]
  omega

/-- No update of one removal is in the place of one of the other. -/
theorem removal_apart : ∀ u ∈ m.removal k D i, ∀ v ∈ m.removal l E j, u.Apart v := by
  obtain ⟨hD,hi⟩ := h.sound.dir D i _ ht.leaf.bound
  obtain ⟨hE,hj⟩ := h.sound.dir E j _ ht'.leaf.bound
  have hn := h.mounted.dirEntryNum_le
  have hslots : slotAddr (m.inode D) i + lab4DirEntrySize ≤ slotAddr (m.inode E) j ∨
      slotAddr (m.inode E) j + lab4DirEntrySize ≤ slotAddr (m.inode D) i := by
    rw [h.slotAddr_eq hD, h.slotAddr_eq hE]
    refine h.mounted.slots_disjoint (hj.trans_le hn) (hi.trans_le hn) ?_
    rintro ⟨hb,rfl⟩
    obtain rfl := h.ledger.block_inj hD hE hb
    exact hkl (Prod.ext_iff.mp (Option.some.inj (ht.leaf.bound.symm.trans ht'.leaf.bound))).2
  have hblocks : m.books.Owns k (m.books.block k) → m.books.Owns l (m.books.block l) →
      m.books.block k ≠ m.books.block l := by
    intro ho ho' hb
    rw [← hb] at ho'
    exact hkl (h.ledger.distinct k l _ ho ho')
  have hleft := fun ho => slot_apart h hE hj (h.ledger.block_ne_of_owns (b := m.books.block k) ho hE hkE.symm)
  have hright := fun ho => slot_apart h hD hi (h.ledger.block_ne_of_owns (b := m.books.block l) ho hD hlD.symm)
  intro u hu v hv
  rcases mem_removal h ht hu with rfl | rfl | rfl | ⟨rfl,ho⟩ | rfl
  · rcases mem_removal h ht' hv with rfl | rfl | rfl | ⟨rfl,_⟩ | rfl
    exacts [trivial,trivial,hkE.symm,trivial,trivial]
  · rcases mem_removal h ht' hv with rfl | rfl | rfl | ⟨rfl,_⟩ | rfl
    exacts [trivial,trivial,trivial,trivial,trivial]
  · rcases mem_removal h ht' hv with rfl | rfl | rfl | ⟨rfl,_⟩ | rfl
    exacts [hlD.symm,trivial,trivial,trivial,trivial]
  · rcases mem_removal h ht' hv with rfl | rfl | rfl | ⟨rfl,ho'⟩ | rfl
    exacts [trivial,trivial,trivial,block_apart (hblocks ho ho'),hleft ho]
  · rcases mem_removal h ht' hv with rfl | rfl | rfl | ⟨rfl,ho'⟩ | rfl
    exacts [trivial,trivial,trivial,(hright ho').symm,hslots]

end Two

/-! ## Removals commute -/

/-- What can be removed: slot `i` of the live directory `D` names it behind the dot entries, and it is a file with
one link or a directory in which no other entries are used. The request calls the operation of its kind. -/
structure Iom.Removes (m : Iom) (q : Request) (D i k : ℕ) (x : List UInt8) : Prop where
  dir : m.LiveDir D
  lo : 2 ≤ i
  names : m.SlotNames D i x k
  name : ValidName x
  kind : (m.inode k).iType = lab4TypeFile ∧ (m.inode k).iLinksCount = 1 ∧ q = .unlink D x ∨
    (m.inode k).iType = lab4TypeDirectory ∧ (∀ j y l, 2 ≤ j → ¬m.SlotNames k j y l) ∧ q = .rmdir D x

namespace Iom.Accounted
variable (h : m.Accounted)
include h

theorem target (hr : m.Removes q D i k x) : m.Target q k D i x := by
  have hslot := h.slot_iff.mpr ⟨hr.dir,hr.names⟩
  obtain ⟨_,hlive⟩ := h.names D i x k hr.dir hr.lo hr.names
  rcases hr.kind with ⟨ht,hl,rfl⟩ | ⟨ht,hempty,rfl⟩
  · have hk : m.tree.kind k = some .file := Books.kind_eq_file.mpr ⟨h.live_iff.mpr hlive,ht⟩
    exact ⟨hr.name,⟨hr.lo,hslot,fun j _ => h.sound.slot_of_not_dir (by rw [hk]; decide)⟩,.inl ⟨hk,rfl,hl⟩⟩
  · have hk : m.tree.kind k = some .dir := h.kind_iff.mpr ⟨hlive,ht⟩
    refine ⟨hr.name,⟨hr.lo,hslot,fun j hj => ?_⟩,.inr ⟨hk,rfl⟩⟩
    by_contra hs
    obtain ⟨⟨y,l⟩,hs⟩ := Option.ne_none_iff_exists'.mp hs
    exact hempty j y l hj (h.slot_iff.mp hs).2

/-- With room in the counters, what a removal gives back fits. -/
theorem releasable (hk : m.Allocated k) (hi : m.InodeRoom 1) (hb : m.BlockRoom 1) : m.Releasable (m.inode k) := by
  refine ⟨hi,fun _ => hb,fun hz b haddr => ?_⟩
  obtain ⟨c,hc,hca,_⟩ := h.owner k hk hz
  have hbc : b = c := Books.blockAddr_inj (c := m.books) h.ledger.clusterSize_pos (haddr.symm.trans hca)
  have := h.blocks
  rw [hbc, h.cluster]
  omega

end Iom.Accounted

/-- Both counters can count two more. -/
structure Iom.RoomForTwo (m : Iom) : Prop where
  fit : m.CountersFit
  inodes : m.InodeRoom 2
  blocks : m.BlockRoom 2

theorem Iom.RoomForTwo.one (h : m.RoomForTwo) : m.InodeRoom 1 ∧ m.BlockRoom 1 := by
  obtain ⟨⟨hi,hi'⟩,hb,hb'⟩ := h.fit
  have hd := Int32.le_toInt m.superBlock.sbFreeInodes
  have he := Int64.le_toInt m.superBlock.sbFreeBlocks
  have hin := h.inodes
  have hbl := h.blocks
  simp only [Iom.InodeRoom, Iom.BlockRoom, addSigned_isSome] at hin hbl ⊢
  omega

section Commute
variable {e e' : Env} {s : Sys} {q' : Request}

/-- Both removals, one after the other: all their updates and one flush. -/
theorem runs_removals (he : e.Nominal) (hs : s.iom.Accounted) (hroom : s.iom.RoomForTwo) (hr : s.iom.Removes q D i k x)
    (hr' : s.iom.Removes q' E j l y) (hkl : k ≠ l) (hkE : k ≠ E) (hlD : l ≠ D) :
    ∃ s' t, q.run e s = some (lab4Success,s') ∧ q'.run e s' = some (lab4Success,t) ∧
      t.iom = ((s.iom.updates (s.iom.removal k D i)).updates (s.iom.removal l E j)).flushAll := by
  have ht := hs.target hr
  have ht' := hs.target hr'
  have hk := (hs.names D i x k hr.dir hr.lo hr.names).2
  have hl := (hs.names E j y l hr'.dir hr'.lo hr'.names).2
  obtain ⟨r,s',hrun,rfl,hiom,hat⟩ := wp_false.mp (wp_target (u := False) he hs.sane hs.unique ht
    (fun hn => hn (hs.releasable hk hroom.one.1 hroom.one.2)))
  obtain ⟨htl,hremoval,hin⟩ := hat.target hs.sane ht hkl hkE ht' hlD
  have hunique : Unique s'.iom.tree := by
    rw [hat.tree]
    exact Leaf.unique hs.unique
  have hrel := hs.releasable hl hroom.one.1 hroom.one.2
  have hrel' : s'.iom.Releasable (s'.iom.inode l) := by
    rw [hin]
    refine ⟨hat.inodeRoom hroom.one.1 hroom.inodes,fun _ => hat.blockRoom hroom.one.2 hroom.blocks,fun hz b hb => ?_⟩
    rw [hat.clusterSize]
    exact hrel.bitmap hz b (hb.trans (blockAddr_congr hat.clusterSize))
  obtain ⟨r,t,hrun',rfl,hiom',_⟩ := wp_false.mp (wp_target (u := False) he hat.sane hunique htl (fun hn => hn hrel'))
  refine ⟨s',t,hrun,hrun',?_⟩
  rw [hiom', hremoval, hiom]
  exact Iom.flushAll_updates (Iom.mounted_updates hs.mounted)

/-- Removals of different things commute: both orders succeed and leave the same io manager, device included. -/
theorem removals_commute (he : e.Nominal) (he' : e'.Nominal) (hs : s.iom.Accounted) (hroom : s.iom.RoomForTwo)
    (hr : s.iom.Removes q D i k x) (hr' : s.iom.Removes q' E j l y) (hkl : k ≠ l) (hkE : k ≠ E) (hlD : l ≠ D) :
    ∃ s1 t1 s2 t2, q.run e s = some (lab4Success,s1) ∧ q'.run e s1 = some (lab4Success,t1) ∧
      q'.run e' s = some (lab4Success,s2) ∧ q.run e' s2 = some (lab4Success,t2) ∧ t1.iom = t2.iom := by
  obtain ⟨s1,t1,h1,h1',ht1⟩ := runs_removals he hs hroom hr hr' hkl hkE hlD
  obtain ⟨s2,t2,h2,h2',ht2⟩ := runs_removals he' hs hroom hr' hr hkl.symm hlD hkE
  refine ⟨s1,t1,s2,t2,h1,h1',h2,h2',?_⟩
  rw [ht1, ht2, Iom.updates_comm (removal_apart hs.sane (hs.target hr) (hs.target hr') hkl hkE hlD)]

end Commute

/-! ## A directory and a file -/

/-- The conditions of `Iom.Removes` on slot `i`, evaluated. -/
def Iom.removesTest (m : Iom) (D i k : ℕ) (x : List UInt8) : Bool :=
  decide (i < 32 ∧ (m.slotEntry D i).dFlag = lab4DirUsed) && decide (cstr (m.slotEntry D i).dFilename = x) &&
    decide ((m.slotEntry D i).dIno.toNat = k) &&
    if (m.inode k).iType = lab4TypeFile then decide ((m.inode k).iLinksCount = 1)
    else decide ((m.inode k).iType = lab4TypeDirectory) &&
      decide (∀ j < (32 : ℕ), 2 ≤ j → (m.slotEntry k j).dFlag ≠ lab4DirUsed)

theorem slotNames_of_test (h : m.removesTest D i k x = true) : m.SlotNames D i x k := by
  simp only [Iom.removesTest, Bool.and_eq_true, decide_eq_true_eq] at h
  exact ⟨h.1.1.1.1,h.1.1.1.2,h.1.1.2,h.1.2⟩

def Iom.roomTest (m : Iom) : Bool :=
  decide (-2^31 ≤ m.sbi.sbFreeInodes ∧ m.sbi.sbFreeInodes < 2^31 ∧ -2^63 ≤ m.sbi.sbFreeBlocks ∧ m.sbi.sbFreeBlocks < 2^63) &&
    (addSigned 32 m.sbi.sbFreeInodes 2).isSome && (addSigned 32 m.superBlock.sbFreeInodes.toInt 2).isSome &&
    (addSigned 64 m.sbi.sbFreeBlocks 2).isSome && (addSigned 64 m.superBlock.sbFreeBlocks.toInt 2).isSome

theorem roomForTwo_of_test (h : m.roomTest = true) : m.RoomForTwo := by
  simp only [Iom.roomTest, Bool.and_eq_true, decide_eq_true_eq] at h
  obtain ⟨⟨⟨⟨⟨h1,h2,h3,h4⟩,hi⟩,hi'⟩,hb⟩,hb'⟩ := h
  exact ⟨⟨⟨h1,h2⟩,h3,h4⟩,⟨hi,hi'⟩,hb,hb'⟩

/-- The directory "d" and the file "f" of a new volume. -/
def makeTwo : M (ℤ × ℤ) := do
  let r ← (Request.mkdir 2 [100]).run
  let r' ← (Request.create 2 [102] 0).run
  return (r,r')

set_option maxRecDepth 100000 in
theorem makeTwo_run : ∃ s0 s, formatAndMount quietEnv (blankDisk 80) = some (true,s0) ∧
    makeTwo quietEnv s0 = some ((lab4Success,lab4Success),s) ∧ s.iom.Consistent ∧ s.iom.RoomForTwo ∧
    s.iom.removesTest 2 2 3 [100] = true ∧ s.iom.removesTest 2 3 4 [102] = true ∧
    (s.iom.inode 3).iType = lab4TypeDirectory ∧ (s.iom.inode 4).iType = lab4TypeFile := by
  have h : ((formatAndMount >>= fun _ => makeTwo) quietEnv (blankDisk 80)).map (fun p => (p.1,p.2.iom.roomTest,
      (p.2.iom.removesTest 2 2 3 [100],p.2.iom.removesTest 2 3 4 [102]),
      (p.2.iom.inode 3).iType,(p.2.iom.inode 4).iType)) =
        some ((lab4Success,lab4Success),true,(true,true),lab4TypeDirectory,lab4TypeFile) := by decide +kernel
  obtain ⟨s0,hrun,hw⟩ := blankDisk_whole
  rw [bind_apply, hrun] at h
  obtain ⟨⟨p,s⟩,hp,heq⟩ := Option.map_eq_some_iff.mp h
  simp only [Prod.mk.injEq] at heq
  obtain ⟨rfl,hroom,⟨h1,h2⟩,hd,hf⟩ := heq
  have hmake : makeTwo quietEnv s0 = some ((lab4Success,lab4Success),s) := hp
  obtain ⟨r1,s1,hmk,hrest⟩ := exists_of_bind hmake
  obtain ⟨r2,s2,hcr,hret⟩ := exists_of_bind hrest
  cases hret
  have hw1 := request_whole quietEnv_nominal hw (q := .mkdir 2 [100]) ⟨hw.consistent.root,by decide,by decide,by decide⟩ hmk
  have hw2 := request_whole quietEnv_nominal hw1 (q := .create 2 [102] 0) ⟨hw1.consistent.root,by decide,by decide,by decide⟩ hcr
  exact ⟨s0,s,hrun,hmake,hw2.consistent,roomForTwo_of_test hroom,h1,h2,hd,hf⟩

/-- Both can be removed in either order. -/
theorem removals_commute_blank : ∃ s0 s s1 t1 s2 t2, formatAndMount quietEnv (blankDisk 80) = some (true,s0) ∧
    makeTwo quietEnv s0 = some ((lab4Success,lab4Success),s) ∧
    (Request.rmdir 2 [100]).run quietEnv s = some (lab4Success,s1) ∧
    (Request.unlink 2 [102]).run quietEnv s1 = some (lab4Success,t1) ∧
    (Request.unlink 2 [102]).run quietEnv s = some (lab4Success,s2) ∧
    (Request.rmdir 2 [100]).run quietEnv s2 = some (lab4Success,t2) ∧ t1.iom = t2.iom := by
  obtain ⟨s0,s,hrun,hmake,hc,hroom,h1,h2,hd,hf⟩ := makeTwo_run
  have hn1 := slotNames_of_test h1
  have hn2 := slotNames_of_test h2
  have hr1 : s.iom.Removes (.rmdir 2 [100]) 2 2 3 [100] := by
    refine ⟨hc.root,by decide,hn1,⟨by decide,by decide,by decide⟩,.inr ⟨hd,fun j y l hj hs => ?_,rfl⟩⟩
    unfold Iom.removesTest at h1
    rw [if_neg (by rw [hd]; decide)] at h1
    simp only [Bool.and_eq_true, decide_eq_true_eq] at h1
    exact h1.2.2 j hs.lt hj hs.used
  have hr2 : s.iom.Removes (.unlink 2 [102]) 2 3 4 [102] := by
    refine ⟨hc.root,by decide,hn2,⟨by decide,by decide,by decide⟩,.inl ⟨hf,?_,rfl⟩⟩
    exact hc.links 4 (hc.names 2 3 _ 4 hc.root (by decide) hn2).2 hf
  obtain ⟨s1,t1,s2,t2,h⟩ := removals_commute quietEnv_nominal quietEnv_nominal hc.accounted hroom hr1 hr2
    (by decide) (by decide) (by decide)
  exact ⟨s0,s,s1,t1,s2,t2,hrun,hmake,h⟩

end SimpleFS
