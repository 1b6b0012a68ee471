import SimpleFS.Commuting

/-! # Unlink erases the data

Two volumes that differ only in the block of one file become the same when the file is unlinked: lookup, table
and entry are read elsewhere, and the block is zeroed over its whole length before anything reads it again.
-/
namespace SimpleFS
open Bytes Machine Prog SlotTree

variable {m m' : Iom} {D E k i j b : ℕ} {x : List UInt8}

/-! ## What the block of a file does not hold -/

namespace Iom.SameBut
variable {a n : ℕ} (h : m.SameBut m' a n)
include h

theorem books : m'.books = m.books := h.onDev.congr (fun _ _ => rfl)
theorem clusterSize : m'.clusterSize = m.clusterSize := h.onDev.congr (fun _ _ => rfl)
theorem inode : m'.inode = m.inode := h.onDev.congr (fun _ _ => rfl)

end Iom.SameBut

section Block
variable (hm : m.Sane) (hk : m.tree.kind k = some .file) (ho : m.books.Owns k b)
  (h : m.SameBut m' (m.blockAddr b) m.clusterSize)
include hm h

/-- Slots in the other blocks are out of the window. -/
theorem entries_of_sameBut : m'.entries = fillBlock m.entries b (fun j => m'.entries b j) := by
  funext c j
  unfold fillBlock
  split
  · next hc => rw [hc.1]
  · next hc =>
    by_cases hj : j < lab4DirEntryNum
    · have hcb : c ≠ b := fun hcb => hc ⟨hcb,hj⟩
      have hs := hm.mounted.slot_in_block (hj.trans_le hm.mounted.dirEntryNum_le)
      have hsize : dirEntryCodec.size = lab4DirEntrySize := rfl
      have := block_apart (m := m) hcb
      rw [entries_of_lt hj, entries_of_lt hj, blockAddr_congr h.clusterSize]
      refine dirEntryCodec.get_congr (fun p hp hp' => h.bytes p ?_)
      omega
    · rw [entries_of_not_lt hj, entries_of_not_lt hj]

include hk ho

theorem tree_of_sameBut : m'.tree = m.tree := by
  rw [Iom.tree, h.books, entries_of_sameBut hm h]
  refine Books.tree_fillBlock (fun E hE => hm.ledger.block_ne_of_owns ho hE ?_)
  rintro rfl
  cases hk.symm.trans hE

theorem sane_of_sameBut : m'.Sane := by
  refine ⟨h.onDev.mounted hm.mounted,?_,?_⟩
  · rw [h.books]
    exact hm.ledger
  · rw [tree_of_sameBut hm hk ho h]
    exact hm.sound

/-- The updates that unlink the file are the same. -/
theorem removal_of_sameBut (hD : m.tree.kind D = some .dir) (hi : i < lab4DirEntryNum) :
    m'.removal k D i = m.removal k D i := by
  have htree := tree_of_sameBut hm hk ho h
  have hDk : D ≠ k := by
    rintro rfl
    cases hk.symm.trans hD
  have hslot : m'.slotEntry D i = m.slotEntry D i := by
    refine hm.slotEntry_congr (sane_of_sameBut hm hk ho h) hD (by rw [htree, hD]) h.clusterSize (by rw [h.inode]) hi ?_
    rw [entries_of_sameBut hm h]
    exact congrFun (hm.fillBlock_of_dir ho hD hDk) i
  have haddr : m'.blockAddr (m.books.block k) = m.blockAddr (m.books.block k) := blockAddr_congr h.clusterSize
  unfold Iom.removal
  dsimp only
  rw [htree, h.inode, h.books, h.clusterSize, haddr, hslot]

/-- They give the block back and zero it first. -/
theorem updates_of_sameBut : m'.updates (m.removal k D i) = m.updates (m.removal k D i) := by
  have hn : m.tree.kind k ≠ some .dir := by rw [hk]; decide
  have hz : (m.inode k).iSize ≠ 0 := ho.size
  rw [Iom.removal, if_neg hn, if_neg hz, ho.block_eq hm.ledger.clusterSize_pos]
  have herase : (Update.write (m.blockAddr b) m.clusterSize zeros).apply ((Update.freeBlock b).apply m') =
      (Update.write (m.blockAddr b) m.clusterSize zeros).apply ((Update.freeBlock b).apply m) :=
    (h.apply (.freeBlock b)).erase
  simp only [Iom.updates_cons, herase]

end Block

/-! ## Two runs -/

section Runs
variable {e e' : Env} {s s' : Sys}

/-- Unlinking a file with data: when both runs end, they end in success and in the same state; both end when
the counters of free inodes and blocks can count one more. -/
theorem unlink_erases_data (he : e.Nominal) (he' : e'.Nominal) (hs : s.iom.Accounted)
    (hr : s.iom.Removes (.unlink D x) D i k x) (hz : (s.iom.inode k).iSize ≠ 0)
    (hsame : s.iom.SameBut s'.iom (s.iom.dataAddr k) s.iom.clusterSize) :
    (∀ {r r' : ℤ} {t t' : Sys}, doUnlink (s.iom.inode D) x e s = some (r,t) →
      doUnlink (s'.iom.inode D) x e' s' = some (r',t') → r = lab4Success ∧ r' = lab4Success ∧ t.iom = t'.iom) ∧
    (s.iom.InodeRoom 1 → s.iom.BlockRoom 1 → ∃ t t', doUnlink (s.iom.inode D) x e s = some (lab4Success,t) ∧
      doUnlink (s'.iom.inode D) x e' s' = some (lab4Success,t')) := by
  have ht := hs.target hr
  have hlive := (hs.names D i x k hr.dir hr.lo hr.names).2
  have hk : s.iom.tree.kind k = some .file := by
    rcases ht.kind with ⟨hk,_⟩ | ⟨_,hq⟩
    · exact hk
    · cases hq
  obtain ⟨b,ho,_⟩ := hs.ledger.own k (hs.live_iff.mpr hlive) hz
  have hwin : s.iom.SameBut s'.iom (s.iom.blockAddr b) s.iom.clusterSize := by
    rw [← show s.iom.dataAddr k = s.iom.blockAddr b from ho.addr]
    exact hsame
  obtain ⟨hD,hi⟩ := hs.sound.dir D i _ ht.leaf.bound
  have htree := tree_of_sameBut hs.sane hk ho hwin
  have ht' : s'.iom.Target (.unlink D x) k D i x := by
    have hk' := ht.kind
    refine ⟨ht.name,?_,?_⟩
    · rw [htree]
      exact ht.leaf
    · rwa [htree, hwin.inode]
  have hs' := sane_of_sameBut hs.sane hk ho hwin
  have hu' : Unique s'.iom.tree := by
    rw [htree]
    exact hs.unique
  have hrun := fun u hu => wp_target (u := u) he hs.sane hs.unique ht hu
  have hrun' := fun u hu => wp_target (u := u) he' hs' hu' ht' hu
  simp only [Request.run, wp_bind, wp_getIom] at hrun hrun'
  constructor
  · intro r r' t t' h h'
    obtain ⟨rfl,h1,_⟩ := (hrun True (fun _ => trivial)).elim h
    obtain ⟨rfl,h2,_⟩ := (hrun' True (fun _ => trivial)).elim h'
    refine ⟨rfl,rfl,?_⟩
    rw [h1, h2, removal_of_sameBut hs.sane hk ho hwin hD hi, updates_of_sameBut hs.sane hk ho hwin]
  · intro hin hbl
    have hrel := hs.releasable hlive hin hbl
    have hrel' : s'.iom.Releasable (s'.iom.inode k) := by
      obtain ⟨z,hz⟩ := hwin.onDev
      rw [hz]
      exact ⟨hrel.inodes,hrel.blocks,hrel.bitmap⟩
    obtain ⟨r,t,h,rfl,_⟩ := wp_false.mp (hrun False (fun hn => hn hrel))
    obtain ⟨r',t',h',rfl,_⟩ := wp_false.mp (hrun' False (fun hn => hn hrel'))
    exact ⟨t,t',h,h'⟩

end Runs

/-! ## A file with data -/

/-- Data in a block below the limit keeps the books neat. -/
theorem Books.Neat.storeFile {c : Books} {n : ℕ} {v : Inode} (h : c.Neat n) (hcs : 0 < c.clusterSize)
    (hk : c.kind k = some .file) (hk3 : 3 ≤ k) (ht : v.iType = lab4TypeFile) (hlinks : v.iLinksCount = 1)
    (htail : ∀ j, j ≠ 0 → v.iBlocks j = 0) (hb : b < n) (haddr : (v.iBlocks 0).toNat = c.blockAddr b) :
    ((c.store k v).own b).Neat n := by
  have hkind : (c.store k v).kind = c.kind :=
    congrArg SlotTree.kind (Books.tree_store_file (f := fun _ _ => DirEntry.zero) hk ht)
  have hself : (c.store k v).inode k = v := Books.store_self
  have hlive := (Books.kind_eq_file.mp hk).1
  have heach : ∀ {P : Inode → Prop}, c.EachFile P → P v → ((c.store k v).own b).EachFile P := by
    intro P hP hv l hl
    change (c.store k v).kind l = some .file at hl
    change P ((c.store k v).inode l)
    rw [hkind] at hl
    by_cases hlk : l = k
    · rwa [hlk, hself]
    · rw [Books.store_of_ne hlk]
      exact hP l hl
  have howns : ∀ {l b'}, l ≠ k → (((c.store k v).own b).Owns l b' ↔ c.Owns l b') := fun hl =>
    Books.owns_congr Iff.rfl (Books.store_of_ne hl) rfl
  refine ⟨heach h.links hlinks,heach h.tail htail,fun l h3 hl hbit => ?_,fun l b' ho => ?_,(howns (by omega)).mpr h.first⟩
  · have hlk : l ≠ k := by
      rintro rfl
      exact Bool.false_ne_true (hbit.symm.trans hlive.2.2)
    exact (Books.store_of_ne hlk).trans (h.zero l h3 hl hbit)
  · by_cases hlk : l = k
    · subst hlk
      have ha : (((c.store l v).inode l).iBlocks 0).toNat = c.blockAddr b' := ho.addr
      rw [hself, haddr] at ha
      rwa [← Books.blockAddr_inj hcs ha]
    · exact h.below l b' ((howns hlk).mp ho)

/-- The first write to a file keeps the volume whole. -/
theorem Iom.Whole.firstWrite {fid n : ℕ} {buf : Mem} {z : ℤ} {v : Inode} (h : m.Whole) (hk : m.tree.kind k = some .file)
    (hk3 : 3 ≤ k) (hv : FileRecord k v) (hino : v.iIno.toNat = k) (hbit : m.dbit b = false) (hb : b < m.maxBlock)
    (hn : n ≤ m.clusterSize) (hlo : 1 ≤ z) (hhi : z < 2^63) : (m.firstWrite fid buf n b v z).Whole := by
  have hle := h.block_le hb
  obtain ⟨hs,ht⟩ : (m.firstWrite fid buf n b v z).Sane ∧ (m.firstWrite fid buf n b v z).tree = m.tree :=
    h.sane.firstWrite hk hk3 hv hino hbit hle hn hlo hhi
  have hfix : (m.firstWrite fid buf n b v z).fixed = m.fixed := fixed_finishWrite _
  refine ⟨hs,(fixed_cluster hfix).trans h.cluster,(fixed_maxBlock hfix).symm ▸ h.blocks,by rw [ht]; exact h.unique,
    by rw [ht]; exact h.held,by rw [ht]; exact h.upward,?_⟩
  rw [fixed_maxBlock hfix, books_firstWrite hino]
  exact h.neat.storeFile h.sane.ledger.clusterSize_pos hk hk3 hv.type hv.links
    (fun j hj => (Inode.withData_blocks hj).trans (hv.blocks j)) hb (Inode.withData_block (by omega))

/-- The books do not know of open files. -/
theorem Iom.Whole.setFile {ft : FileTable} (h : m.Whole) : (m.setFile k ft).Whole :=
  ⟨⟨h.sane.mounted.setFile,h.sane.ledger,h.sane.sound⟩,h.cluster,h.blocks,h.unique,h.held,h.upward,h.neat⟩

/-- An open file under number 3. -/
def handle : FileTable := ⟨3,0,true,0,oRdwr⟩

def newFileTest (m : Iom) : Bool :=
  decide ((m.inode 3).iIno = UInt32.ofNat 3 ∧ (m.inode 3).iType = lab4TypeFile ∧ (m.inode 3).iSize = 0) &&
    decide ((m.inode 3).iLinksCount = 1 ∧ ∀ j, (m.inode 3).iBlocks j = 0) && m.ibit 3

theorem newFileTest_eq (h : newFileTest m = true) : FileRecord 3 (m.inode 3) ∧ m.ibit 3 = true := by
  simp only [newFileTest, Bool.and_eq_true, decide_eq_true_eq] at h
  obtain ⟨⟨⟨hi,ht,hs⟩,hl,hb⟩,hbit⟩ := h
  exact ⟨⟨hi,ht,hs,hl,hb⟩,hbit⟩

/-- A file is made, opened under number 3 and gets two bytes. -/
def makeData : M (Bool × ℤ) := do
  let _ ← (Request.create 2 [102] 0).run
  let m ← getIom
  setIom (m.setFile 3 handle)
  let r ← doWrite 3 (fun _ => 104) 2 0
  return (newFileTest m,r)

set_option maxRecDepth 100000 in
theorem makeData_run : ∃ s0 s, formatAndMount quietEnv (blankDisk 80) = some (true,s0) ∧
    makeData quietEnv s0 = some ((true,2),s) ∧ s.iom.Consistent ∧ s.iom.RoomForTwo ∧
    s.iom.removesTest 2 2 3 [102] = true ∧ (s.iom.inode 3).iType = lab4TypeFile ∧ (s.iom.inode 3).iSize = 2 := by
  have h : ((formatAndMount >>= fun _ => makeData) quietEnv (blankDisk 80)).map (fun p => (p.1,p.2.iom.roomTest,
      p.2.iom.removesTest 2 2 3 [102],(p.2.iom.inode 3).iType,(p.2.iom.inode 3).iSize)) =
        some ((true,2),true,true,lab4TypeFile,2) := by decide +kernel
  obtain ⟨s0,hrun,hw⟩ := blankDisk_whole
  rw [bind_apply, hrun] at h
  obtain ⟨⟨p,s⟩,hp,heq⟩ := Option.map_eq_some_iff.mp h
  simp only [Prod.mk.injEq] at heq
  obtain ⟨rfl,hroom,hnames,htype,hsize⟩ := heq
  have hmake : makeData quietEnv s0 = some ((true,2),s) := hp
  refine ⟨s0,s,hrun,hmake,?_,roomForTwo_of_test hroom,hnames,htype,hsize⟩
  obtain ⟨r,s1,hcr,hrest⟩ := exists_of_bind hmake
  have hw1 := request_whole quietEnv_nominal hw (q := .create 2 [102] 0) ⟨hw.consistent.root,by decide,by decide,by decide⟩ hcr
  have hrun : (doWrite 3 (fun _ => 104) 2 0 >>= fun w => (pure (newFileTest s1.iom,w) : M (Bool × ℤ))) quietEnv
      ⟨s1.iom.setFile 3 handle,s1.clock⟩ = some ((true,2),s) := hrest
  obtain ⟨w,s2,hwrite,hret⟩ := exists_of_bind hrun
  have hpair := congrArg Prod.fst (Option.some.inj hret)
  obtain ⟨htest,hres⟩ := Prod.mk.inj hpair
  obtain rfl : s2 = s := congrArg Prod.snd (Option.some.inj hret)
  obtain ⟨hv,hbit⟩ := newFileTest_eq htest
  have hnum : s1.iom.inodeNum = 32 := by
    rw [Iom.inodeNum, hw1.cluster]
    rfl
  have hino : (s1.iom.inode 3).iIno.toNat = 3 := by
    rw [hv.ino]
    rfl
  have hlt : 3 < s1.iom.inodeNum := by
    rw [hnum]
    decide
  have hk : s1.iom.tree.kind 3 = some .file := Books.kind_eq_file.mpr ⟨⟨by decide,hlt,hbit⟩,hv.type⟩
  have hw2 : ((s1.iom.setFile 3 handle).seekFile 3 0).Whole := hw1.setFile.setFile
  have hcs : (s1.iom.setFile 3 handle).clusterSize = 4096 := hw1.cluster
  have hft : (s1.iom.setFile 3 handle).sbi.fileTable 3 = handle := by simp [Iom.setFile]
  have hsize : (s1.iom.setFile 3 handle).appendSize 3 2 0 = 2 := by
    unfold Iom.appendSize
    rw [hft]
    rfl
  refine Iom.Whole.consistent ((wp_firstWrite (Q := fun w s' => w ≠ lab4Error → s'.iom.Whole) (v := s1.iom.inode 3)
    quietEnv_nominal.io hw1.setFile.sane.mounted (by decide) (by rw [hcs]; decide) ?_ ?_ hv.size
    (fun _ hn => absurd rfl hn) (fun s' b _ hb hclear hs' _ => ?_)).elim hwrite (by rw [hres]; decide))
  · rw [hft]
    rfl
  · rw [hino]
    exact hlt
  · rw [hs', hsize]
    exact hw2.firstWrite hk (by decide) hv hino hclear hb (hcs ▸ (by decide : 2 ≤ 4096)) (by decide) (by decide)

/-- Two volumes with different data in the file, after the file is unlinked. -/
theorem unlink_erases_data_blank : ∃ s0 s t t', formatAndMount quietEnv (blankDisk 80) = some (true,s0) ∧
    makeData quietEnv s0 = some ((true,2),s) ∧
    doUnlink (s.iom.inode 2) [102] quietEnv s = some (lab4Success,t) ∧
    doUnlink (s.iom.inode 2) [102] quietEnv
      { s with iom := s.iom.writeDev (s.iom.dataAddr 3) s.iom.clusterSize (fun _ => 107) } = some (lab4Success,t') ∧
    t.iom = t'.iom := by
  obtain ⟨s0,s,hrun,hmake,hc,hroom,h1,hf,hz⟩ := makeData_run
  have hn := slotNames_of_test h1
  have hr : s.iom.Removes (.unlink 2 [102]) 2 2 3 [102] := by
    refine ⟨hc.root,by decide,hn,⟨by decide,by decide,by decide⟩,.inl ⟨hf,?_,rfl⟩⟩
    exact hc.links 3 (hc.names 2 2 _ 3 hc.root (by decide) hn).2 hf
  have hsame : s.iom.SameBut (s.iom.writeDev (s.iom.dataAddr 3) s.iom.clusterSize (fun _ => 107)) (s.iom.dataAddr 3)
      s.iom.clusterSize :=
    ⟨⟨_,rfl⟩,fun i hi => splice_outside (m := s.iom.dev.bytes) (d := fun _ => 107) hi⟩
  have hsame' : s.iom.SameBut ({ s with iom := s.iom.writeDev (s.iom.dataAddr 3) s.iom.clusterSize (fun _ => 107) } : Sys).iom
      (s.iom.dataAddr 3) s.iom.clusterSize := hsame
  obtain ⟨hend,hboth⟩ := unlink_erases_data quietEnv_nominal quietEnv_nominal hc.accounted hr (by rw [hz]; decide) hsame'
  obtain ⟨t,t',h,h'⟩ := hboth hroom.one.1 hroom.one.2
  exact ⟨s0,s,t,t',hrun,hmake,h,h',(hend h h').2.2⟩

end SimpleFS
