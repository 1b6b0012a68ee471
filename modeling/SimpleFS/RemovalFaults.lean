import SimpleFS.BlockHint
import SimpleFS.Commuting
import SimpleFS.RemovalKinds

/-! # Removals with a transfer that fails

One transfer of a removal fails ahead of the flushes. Both functions undo by reading the buffers back, in
which the free counts have no part, and neither looks at the result of the write of the entry.
-/
namespace SimpleFS
open Bytes Machine Prog SlotTree

/-- Transfer `T` fails, and no other call does. -/
def Env.failingAt (e : Env) (T : ℕ) : Env :=
  { e with ioFails := fun t => decide (t = T), mallocFails := fun _ => false }

/-- The clocks at which `do_unlink`, called at `c`, transfers ahead of its flushes: behind two allocations the
read in `lab4_lookup`; behind one for the record, if the last link goes and there is data, the write that
clears the block; the write of the entry. -/
def Iom.unlinkTransfers (m : Iom) (D : ℕ) (x : List UInt8) (c : ℕ) : List ℕ :=
  match m.scan (lookupTest x) D with
  | some (true,i) =>
    let v := m.inode (m.slotIno (m.inode D) i)
    if v.iLinksCount = 1 ∧ v.iSize ≠ 0 then [c + 2,c + 4,c + 5] else [c + 2,c + 4]
  | _ => [c + 2]

/-- The same for `do_rmdir`: the read in `check_dir_deletable` comes behind an allocation as well, and the
backup of an empty directory behind two. -/
def Iom.rmdirTransfers (m : Iom) (D : ℕ) (x : List UInt8) (c : ℕ) : List ℕ :=
  match m.scan (lookupTest x) D with
  | some (true,i) =>
    match m.usedScan (m.slotIno (m.inode D) i) with
    | some (false,_) => [c + 2,c + 5,c + 8,c + 9,c + 10]
    | _ => [c + 2,c + 5]
  | _ => [c + 2]

/-- A removal is refused with an error: metadata in memory, block and entry of the object are as they were. -/
structure Iom.Unremoved (m : Iom) (D : ℕ) (x : List UInt8) (r : ℤ) (m' : Iom) : Prop where
  error : r < 0
  ibit : ∀ l, m'.ibit l = m.ibit l
  dbit : ∀ b, m'.dbit b = m.dbit b
  inode : ∀ l < m.inodeNum, m'.inode l = m.inode l
  freeInodes : m'.sbi.sbFreeInodes = m.sbi.sbFreeInodes
  freeBlocks : m'.sbi.sbFreeBlocks = m.sbi.sbFreeBlocks
  superBlock : m'.superBlock = m.superBlock
  block : ∀ i, m.scan (lookupTest x) D = some (true,i) → ∀ a < m.clusterSize,
    m'.dev.bytes (m.dataAddr (m.slotIno (m.inode D) i) + a) = m.dev.bytes (m.dataAddr (m.slotIno (m.inode D) i) + a)
  entry : ∀ i, m.scan (lookupTest x) D = some (true,i) → m'.slotEntry D i = m.slotEntry D i

/-- What a removal of `x` comes upon is in use, and the counters have room for it. -/
def Iom.Reclaimable (m : Iom) (D : ℕ) (x : List UInt8) : Prop := ∀ i, m.scan (lookupTest x) D = some (true,i) →
  m.books.Live (m.slotIno (m.inode D) i) ∧ m.Releasable (m.inode (m.slotIno (m.inode D) i))

/-- What `do_rmdir` comes upon has a block, and the loop over its slots stays inside. Every directory is so. -/
def Iom.Searchable (m : Iom) (D : ℕ) (x : List UInt8) : Prop := ∀ i, m.scan (lookupTest x) D = some (true,i) →
  (m.inode (m.slotIno (m.inode D) i)).iSize ≠ 0 ∧ (m.usedScan (m.slotIno (m.inode D) i)).isSome

variable {u : Prop} {e : Env} {s : Sys} {p v : Inode} {D i k T : ℕ} {x : List UInt8} {d : DirEntry} {z : ℤ}

theorem Iom.Unremoved.refl {m : Iom} {r : ℤ} (hr : r < 0) : m.Unremoved D x r m :=
  ⟨hr,fun _ => rfl,fun _ => rfl,fun _ _ => rfl,rfl,rfl,rfl,fun _ _ _ _ => rfl,fun _ _ => rfl⟩

/-- Directories can be searched for used slots. -/
theorem Iom.Sane.searchable {m : Iom} (h : m.Sane) (hdir : ∀ i, m.scan (lookupTest x) D = some (true,i) →
    m.tree.kind (m.slotIno (m.inode D) i) = some .dir) : m.Searchable D x := by
  intro i hi
  have hk := hdir i hi
  refine ⟨?_,h.mounted.usedScan_isSome h.ledger hk⟩
  rw [show (m.inode (m.slotIno (m.inode D) i)).iSize = 4096 from h.ledger.dir_size hk]
  decide

theorem failingAt_malloc : (e.failingAt T).MallocOk := fun _ => rfl

theorem failingAt_self : (e.failingAt T).ioFails T = true := decide_eq_true rfl

theorem failingAt_of_ne {t : ℕ} (h : t ≠ T) : (e.failingAt T).ioFails t = false := decide_eq_false h

/-! ## Unlink -/

/-- Giving back the data of a file, whether or not its block could be cleared. -/
theorem wp_unlinkData_any {Q : ℤ → Sys → Prop} (hm : s.iom.Mounted) (hrel : s.iom.Releasable v)
    (hz : v.iSize ≠ 0 → ∀ j, j ≠ 0 → v.iBlocks j = 0)
    (howns : v.iSize ≠ 0 → ∃ b, (v.iBlocks 0).toNat = s.iom.blockAddr b ∧ s.iom.blockAddr b + s.iom.clusterSize ≤ 2^31)
    (herr : ∀ s', v.iSize ≠ 0 → s'.iom.sbi.sbFreeBlocks = s.iom.sbi.sbFreeBlocks + 1 → Q lab4Error s')
    (hok : ∀ s', s'.iom.Mounted → s'.iom.inodeNum = s.iom.inodeNum → s'.iom.InodeRoom 1 → Q lab4Success s') :
    wp u (unlinkData v) Q e s := by
  unfold unlinkData
  rw [wp_ite, wp_pure]
  refine ⟨fun _ => hok s hm rfl hrel.inodes,fun hsize => ?_⟩
  obtain ⟨b,hb,hlt⟩ := howns hsize
  have hcs := hm.cluster_le
  rw [wp_bind]
  refine wp_deleteBlockInbmap hm hb (by omega) (fun hn => absurd ⟨hrel.bitmap hsize b hb,hrel.blocks hsize⟩ hn)
    (fun s1 _ h1 => ?_)
  have hm1 : s1.iom.Mounted := h1 ▸ hm.freeBlock
  have hcount : s1.iom.sbi.sbFreeBlocks = s.iom.sbi.sbFreeBlocks + 1 := by
    rw [h1]
    rfl
  rw [wp_bind]
  refine wp_deleteBlock_one hm1 (hz hsize) (fun s2 h2 => ?_) (fun s2 h2 => ?_)
  · rw [if_pos rfl, wp_bind]
    refine wp_restoreDbmap (h2 ▸ hm1) (fun _ c s3 _ h3 => ?_)
    rw [wp_pure]
    refine herr s3 hsize ?_
    rw [h3, h2]
    exact hcount
  · rw [if_neg (by decide), wp_pure]
    refine hok s2 (h2.mounted hm1) ?_ ?_
    · rw [h2.congr (f := Iom.inodeNum) (fun _ _ => rfl), h1]
      rfl
    · refine (inodeRoom_congr (h2.congr (f := fun m => m.sbi.sbFreeInodes) (fun _ _ => rfl))
        (h2.congr (f := fun m => m.superBlock.sbFreeInodes) (fun _ _ => rfl))).mpr ?_
      rw [h1]
      exact inodeRoom_freeBlock.mpr hrel.inodes

/-- `do_unlink` behind the record: it fails with a block counted free, or reports success. -/
theorem wp_unlink_counted {m : Iom} {Q : ℤ → Sys → Prop} (hs : s.iom = m) (hm : m.Mounted) (hrow : m.RecordOk k)
    (hk : k < m.inodeNum) (hrel : m.Releasable (m.inode k))
    (hQ : ∀ r s', r = lab4Success ∨ (m.inode k).iSize ≠ 0 ∧ s'.iom.sbi.sbFreeBlocks = m.sbi.sbFreeBlocks + 1 → Q r s') :
    wp u (do
      let res ← unlinkInode { m.inode k with iLinksCount := (m.inode k).iLinksCount - 1 }
      if res = lab4Error then return lab4Error
      writeBackEntry p d z
      updateMetadata
      return lab4Success) Q e s := by
  subst hs
  have hend : ∀ s', s'.iom.Mounted → wp u (do
      writeBackEntry p d z
      updateMetadata
      return lab4Success) Q e s' := by
    intro s' hm'
    rw [wp_bind]
    apply wp_writeBackEntry_any
    intro s1 h1
    rw [wp_bind]
    apply wp_updateMetadata_any (h1.mounted hm')
    intro s2 _ _
    rw [wp_pure]
    exact hQ _ s2 (.inl rfl)
  unfold unlinkInode
  simp only [wp_bind]
  rw [wp_ite, wp_pure]
  refine ⟨fun _ => ?_,fun _ => ?_⟩
  · rw [if_neg (by decide)]
    exact hend s hm
  rw [wp_bind]
  refine wp_unlinkData_any hm ⟨hrel.inodes,hrel.blocks,hrel.bitmap⟩ hrow.tail hrow.owns (fun s1 hsize h1 => ?_)
    (fun s1 hm1 hn1 hroom => ?_)
  · rw [if_pos rfl, wp_pure, if_pos rfl, wp_pure]
    exact hQ _ s1 (.inr ⟨hsize,h1⟩)
  · rw [if_neg (by decide), wp_bind]
    refine wp_deleteInode hm1 (by rw [hn1, hrow.ino]; exact hk) (fun hn => absurd hroom hn) (fun s2 _ h2 => ?_)
    rw [if_neg (by decide), wp_pure, if_neg (by decide)]
    exact hend s2 (h2 ▸ hm1.freeInode)

/-! ## Rmdir -/

/-- The read in `check_dir_deletable` comes behind its allocation. -/
theorem wp_checkDirDeletable_at {m : Iom} {j : ℕ} {found : Bool} {Q : ℤ → Sys → Prop} (hs : s.iom = m) (hm : m.Mounted)
    (hmal : e.MallocOk) (haddr : m.dataAddr k < 2^31) (hscan : m.usedScan k = some (found,j))
    (herr : ∀ s', e.ioFails (s.clock + 1) = true → s'.iom = m → Q lab4Error s')
    (hused : ∀ s', e.ioFails (s.clock + 1) = false → found = true → s'.iom = m → Q (-enotempty) s')
    (hempty : ∀ s', e.ioFails (s.clock + 1) = false → found = false → s'.iom = m → Q lab4Success s') :
    wp u (checkDirDeletable (m.inode k)) Q e s := by
  subst hs
  have hcs := hm.cluster_le
  have hslots := hm.slots
  have ha : (s.iom.inode k).blocknr = (s.iom.dataAddr k : ℕ) := Inode.blocknr_eq haddr
  have hread : slotLoop usedTest (s.iom.inode k).iSize.toInt
      (splice zeros 0 s.iom.clusterSize (s.iom.dev.bytes.shift (s.iom.dataAddr k)))
      (s.iom.clusterSize / lab4DirEntrySize - 2) 2 = s.iom.usedScan k :=
    slotLoop_congr (fun l hl => entryAt_read (by unfold lab4DirEntrySize at *; omega))
  unfold checkDirDeletable
  rw [wp_bind, wp_malloc, hmal, if_neg (by decide), wp_bind, wp_getIom, wp_bind, Sys.next_iom, ha, wp_pread]
  refine ⟨fun hf => ?_,fun hf => ⟨fun hn => absurd hn (Nat.lt_irrefl _),fun _ => ?_⟩⟩
  · dsimp only
    rw [if_pos rfl, wp_pure]
    refine herr _ (hf.resolve_left ?_) rfl
    omega
  · rw [not_or, Bool.not_eq_true] at hf
    dsimp only
    rw [if_neg hm.clusterSize_ne_error, wp_bind, wp_lift, Int.toNat_natCast, Sys.next_iom, hread, hscan]
    refine ⟨fun hn => (by cases hn),?_⟩
    intro r hr
    obtain rfl := Option.some.inj hr
    cases found with
    | false =>
      dsimp only
      rw [if_neg (by decide), wp_pure]
      exact hempty _ hf.2 rfl rfl
    | true =>
      rw [if_pos rfl, wp_pure]
      exact hused _ hf.2 rfl rfl

/-- `do_rmdir` behind the check: whatever fails, a record has been counted free. -/
theorem wp_removeEmptyDir_counted {m : Iom} {Q : ℤ → Sys → Prop} (hs : s.iom = m) (hm : m.Mounted) (hmal : e.MallocOk)
    (hrow : m.RecordOk k) (hk : k < m.inodeNum) (hpar : p.iIno.toNat < m.inodeNum) (hsize : (m.inode k).iSize ≠ 0)
    (hrel : m.Releasable (m.inode k)) (hQ : ∀ r s', s'.iom.sbi.sbFreeInodes = m.sbi.sbFreeInodes + 1 → Q r s') :
    wp u (removeEmptyDir m.clusterSize p (m.inode k) d z) Q e s := by
  subst hs
  obtain ⟨b,hb,hlt⟩ := hrow.owns hsize
  have hcs := hm.cluster_le
  unfold removeEmptyDir
  rw [wp_bind]
  refine wp_deleteInode hm (by rw [hrow.ino]; exact hk) (fun hn => absurd hrel.inodes hn) (fun s1 _ h1 => ?_)
  have hm1 : s1.iom.Mounted := h1 ▸ hm.freeInode
  have hcs1 : s1.iom.clusterSize = s.iom.clusterSize := by rw [h1, Iom.freeInode_clusterSize]
  have hb1 : s1.iom.blockAddr b = s.iom.blockAddr b := by rw [Iom.blockAddr, hcs1]; rfl
  have hcount1 : s1.iom.sbi.sbFreeInodes = s.iom.sbi.sbFreeInodes + 1 := by
    rw [h1]
    rfl
  rw [if_neg (by decide), wp_bind]
  refine wp_deleteBlockInbmap hm1 (hb.trans hb1.symm) (by omega) (fun hn => absurd ?_ hn) (fun s2 _ h2 => ?_)
  · rw [hcs1, h1]
    exact ⟨hrel.bitmap hsize b hb,blockRoom_freeInode.mpr (hrel.blocks hsize)⟩
  have hm2 : s2.iom.Mounted := h2 ▸ hm1.freeBlock
  have hcount2 : s2.iom.sbi.sbFreeInodes = s.iom.sbi.sbFreeInodes + 1 := by
    rw [h2]
    exact hcount1
  have hdev : ∀ {m : Iom}, s2.iom.OnDev m → m.sbi.sbFreeInodes = s.iom.sbi.sbFreeInodes + 1 := fun h =>
    (h.congr (f := fun m => m.sbi.sbFreeInodes) (fun _ _ => rfl)).trans hcount2
  -- reading the buffers back leaves the count
  have hundo : ∀ s', s2.iom.OnDev s'.iom → wp u (do
      let _ ← restoreDbmap
      let _ ← restoreIbmap
      let _ ← restoreItble
      return lab4Error) Q e s' := by
    intro s' h'
    have hm' := h'.mounted hm2
    rw [wp_bind]
    refine wp_restoreDbmap hm' (fun _ c s3 _ h3 => ?_)
    have hm3 : s3.iom.Mounted := h3 ▸ hm'.setDbmap
    rw [wp_bind]
    refine wp_restoreIbmap hm3 (fun _ c' s4 _ h4 => ?_)
    rw [wp_bind]
    refine wp_restoreItble (h4 ▸ hm3.setIbmap) (fun _ c'' s5 _ h5 => ?_)
    rw [wp_pure]
    refine hQ _ s5 ?_
    rw [h5, h4, h3]
    exact (hdev h' : s'.iom.sbi.sbFreeInodes = _)
  rw [wp_bind, wp_malloc, hmal, if_neg (by decide), wp_bind, wp_malloc, hmal, if_neg (by decide), wp_bind, wp_pread]
  refine ⟨fun _ => ?_,fun _ => ⟨fun hn => absurd hn (Nat.lt_irrefl _),fun _ => ?_⟩⟩
  · dsimp only
    rw [if_pos rfl]
    exact hundo _ (.refl _)
  dsimp only
  rw [if_neg hm.clusterSize_ne_error, wp_bind, wp_pwrite]
  refine ⟨fun _ => ?_,fun _ => ?_⟩
  · rw [if_pos rfl]
    unfold restoreData
    simp only [wp_bind]
    refine wp_pwrite_any (fun _ s3 h3 _ => ?_)
    rw [wp_pure]
    have hrest := hundo s3 h3
    simp only [wp_bind] at hrest
    exact hrest
  rw [if_neg hm.clusterSize_ne_error, wp_bind]
  apply wp_writeBackEntry_any
  intro s4 h4
  replace h4 : s2.iom.OnDev s4.iom := (Iom.OnDev.writeDev _ _ _ _).trans h4
  have hn4 : s4.iom.inodeNum = s.iom.inodeNum := by
    rw [h4.congr (f := Iom.inodeNum) (fun _ _ => rfl), h2, h1]
    rfl
  rw [wp_bind]
  apply wp_bumpLink (by rw [hn4]; exact hpar)
  intro s5 h5
  rw [wp_bind]
  apply wp_updateMetadata_any (h5 ▸ (h4.mounted hm2).addLink)
  intro s6 h6 _
  rw [wp_pure]
  refine hQ _ s6 ?_
  rw [h6.congr (f := fun m => m.sbi.sbFreeInodes) (fun _ _ => rfl), h5]
  exact (hdev h4 : s4.iom.sbi.sbFreeInodes = _)

/-! ## What decides -/

namespace Iom.Sane
variable (h : s.iom.Sane) (hmal : e.MallocOk) (hD : s.iom.tree.kind D = some .dir) (hx : ValidName x)
include h hmal hD hx

/-- The lookup that begins both removals: where its transfer fails they fail, and nothing has happened. -/
theorem wp_lookup_at {Q : ℤ × DirEntry × ℤ → Sys → Prop}
    (herr : ∀ d z s', e.ioFails (s.clock + 2) = true → s'.iom = s.iom → Q (lab4Error,d,z) s')
    (hmiss : ∀ d z s' l, e.ioFails (s.clock + 2) = false → s.iom.scan (lookupTest x) D = some (false,l) → s'.iom = s.iom →
      Q (-enoent,d,z) s')
    (hok : ∀ s' i, e.ioFails (s.clock + 2) = false → s.iom.scan (lookupTest x) D = some (true,i) → s'.iom = s.iom →
      s'.clock = s.clock + 3 → Q (lab4Success,(s.iom.slotEntry D i).deleted,toS32 (lab4DirEntrySize * i : ℕ)) s') :
    wp u (lab4Lookup (s.iom.inode D).iIno DirEntry.zero x 1) Q e s := by
  obtain ⟨hino,hD2,hDn⟩ := dir_ino h hD
  have haddr : s.iom.dataAddr D < 2^31 := (h.parent hD).addr
  have hsome := h.mounted.scan_isSome h.ledger hD (lookupTest_isSome hx.lt)
  refine wp_lab4Lookup_ticks h.mounted (fun hlow => ?_) (fun _ _ hn => absurd hmal hn) (fun s' h' _ _ _ hf => ?_)
    (fun _ hn => ?_) (fun _ _ hn => ?_) (fun s' i h' hc hf _ _ _ hi => ?_) (fun s' l h' _ hf _ _ _ hl => ?_)
  · omega
  · rw [hino] at hf
    exact herr _ _ s' (hf.resolve_right (Nat.not_le.mpr haddr)) h'
  · omega
  · rw [hino] at hn
    rw [hn] at hsome
    cases hsome
  · rw [hino] at hi ⊢
    rw [lookupResult_delete]
    exact hok s' i hf hi h' hc
  · rw [hino] at hl
    exact hmiss _ _ s' l hf hl h'

variable (hrec : s.iom.Reclaimable D x)
include hrec

theorem wp_doUnlink_at {Q : ℤ → Sys → Prop} (herr : ∀ s', e.ioFails (s.clock + 2) = true → s'.iom = s.iom → Q lab4Error s')
    (hmiss : ∀ r s' l, e.ioFails (s.clock + 2) = false → s.iom.scan (lookupTest x) D = some (false,l) → Q r s')
    (hQ : ∀ r s' i, e.ioFails (s.clock + 2) = false → s.iom.scan (lookupTest x) D = some (true,i) →
      r = lab4Success ∨ (s.iom.inode (s.iom.slotIno (s.iom.inode D) i)).iSize ≠ 0 ∧
        s'.iom.sbi.sbFreeBlocks = s.iom.sbi.sbFreeBlocks + 1 → Q r s') :
    wp u (doUnlink (s.iom.inode D) x) Q e s := by
  unfold doUnlink
  rw [wp_bind]
  refine h.wp_lookup_at hmal hD hx (fun _ _ s1 hf h1 => ?_) (fun _ _ s1 l hf hl _ => ?_) (fun s1 i hf hi h1 _ => ?_)
  · dsimp only
    rw [if_pos rfl, wp_pure]
    exact herr s1 hf h1
  · dsimp only
    rw [if_neg (by decide), if_pos rfl, wp_pure]
    exact hmiss _ s1 l hf hl
  obtain ⟨hlive,hrel⟩ := hrec i hi
  replace hQ := fun r s' => hQ r s' i hf hi
  have hslot : (s.iom.slotEntry D i).deleted.dIno.toNat = s.iom.slotIno (s.iom.inode D) i := by
    rw [Iom.slotIno, h.ino_dir hD]
    rfl
  generalize s.iom.slotIno (s.iom.inode D) i = k at hlive hrel hslot hQ
  dsimp only
  rw [if_neg (by decide), if_neg (by decide), wp_bind]
  refine wp_doReadInode_at (by rw [hslot]; exact hlive.1) (by rw [hslot, h1]; exact hlive.2.1) (fun hn => ?_) (fun _ => ?_)
  · rw [hmal] at hn
    cases hn
  dsimp only
  rw [hslot, h1]
  exact wp_unlink_counted h1 h.mounted (h.recordOk hlive) hlive.2.1 hrel hQ

variable (hsearch : s.iom.Searchable D x)
include hsearch

theorem wp_doRmdir_at {Q : ℤ → Sys → Prop}
    (herr : ∀ s', e.ioFails (s.clock + 2) = true ∨ e.ioFails (s.clock + 5) = true → s'.iom = s.iom → Q lab4Error s')
    (hmiss : ∀ r s' l, e.ioFails (s.clock + 2) = false → s.iom.scan (lookupTest x) D = some (false,l) → Q r s')
    (hused : ∀ r s' i j, e.ioFails (s.clock + 2) = false → e.ioFails (s.clock + 5) = false → s.iom.scan (lookupTest x) D = some (true,i) →
      s.iom.usedScan (s.iom.slotIno (s.iom.inode D) i) = some (true,j) → Q r s')
    (hQ : ∀ r s', e.ioFails (s.clock + 2) = false → e.ioFails (s.clock + 5) = false →
      s'.iom.sbi.sbFreeInodes = s.iom.sbi.sbFreeInodes + 1 → Q r s') :
    wp u (doRmdir (s.iom.inode D) x) Q e s := by
  obtain ⟨hino,_,hDn⟩ := dir_ino h hD
  unfold doRmdir
  rw [wp_bind, wp_getIom, wp_bind]
  refine h.wp_lookup_at hmal hD hx (fun _ _ s1 hf h1 => ?_) (fun _ _ s1 l hf hl _ => ?_) (fun s1 i hf hi h1 hc1 => ?_)
  · dsimp only
    rw [if_pos rfl, wp_pure]
    exact herr s1 (.inl hf) h1
  · dsimp only
    rw [if_neg (by decide), if_pos rfl, wp_pure]
    exact hmiss _ s1 l hf hl
  obtain ⟨hlive,hrel⟩ := hrec i hi
  obtain ⟨hsize,hloop⟩ := hsearch i hi
  replace hused := fun r s' j hf' => hused r s' i j hf hf' hi
  have hslot : (s.iom.slotEntry D i).deleted.dIno.toNat = s.iom.slotIno (s.iom.inode D) i := by
    rw [Iom.slotIno, hino]
    rfl
  generalize s.iom.slotIno (s.iom.inode D) i = k at hlive hrel hslot hsize hloop hused
  have haddr : s.iom.dataAddr k < 2^31 := by
    obtain ⟨b,hb,hle⟩ := (h.recordOk hlive).owns hsize
    have := h.mounted.cluster_le
    omega
  obtain ⟨⟨found,j⟩,hj⟩ := Option.isSome_iff_exists.mp hloop
  dsimp only
  rw [if_neg (by decide), if_neg (by decide), wp_bind]
  refine wp_doReadInode_at (by rw [hslot]; exact hlive.1) (by rw [hslot, h1]; exact hlive.2.1) (fun hn => ?_) (fun _ => ?_)
  · rw [hmal] at hn
    cases hn
  dsimp only
  rw [hslot, h1, wp_bind]
  have hc2 : s1.next.clock + 1 = s.clock + 5 := by
    rw [Sys.next, hc1]
  refine wp_checkDirDeletable_at h1 h.mounted hmal haddr hj (fun s2 hf2 h2 => ?_) (fun s2 hf2 hfound _ => ?_)
    (fun s2 hf2 _ h2 => ?_)
  · rw [if_pos rfl, wp_pure]
    exact herr s2 (.inr (hc2 ▸ hf2)) h2
  · rw [if_neg (by decide), if_pos rfl, wp_pure]
    exact hused _ s2 j (hc2 ▸ hf2) (hfound ▸ hj)
  · rw [if_neg (by decide), if_neg (by decide), h.mounted.sbiCluster]
    exact wp_removeEmptyDir_counted h2 h.mounted hmal (h.recordOk hlive) hlive.2.1 (hino.symm ▸ hDn) hsize hrel
      (fun r s' hr => hQ r s' hf (hc2 ▸ hf2) hr)

end Iom.Sane

theorem mem_unlinkTransfers {m : Iom} {c : ℕ} (h : T ∈ m.unlinkTransfers D x c) (hT : T ≠ c + 2) :
    ∃ i, m.scan (lookupTest x) D = some (true,i) := by
  unfold Iom.unlinkTransfers at h
  split at h
  · next i hi => exact ⟨i,hi⟩
  · exact absurd (List.mem_singleton.mp h) hT

theorem mem_rmdirTransfers {m : Iom} {c : ℕ} (h : T ∈ m.rmdirTransfers D x c) (hT : T ≠ c + 2) :
    ∃ i, m.scan (lookupTest x) D = some (true,i) ∧
      (T ≠ c + 5 → ∃ j, m.usedScan (m.slotIno (m.inode D) i) = some (false,j)) := by
  unfold Iom.rmdirTransfers at h
  split at h
  · next i hi =>
    refine ⟨i,hi,fun hT' => ?_⟩
    split at h
    · next j hj => exact ⟨j,hj⟩
    · rcases List.mem_cons.mp h with h | h
      · exact absurd h hT
      · exact absurd (List.mem_singleton.mp h) hT'
  · exact absurd (List.mem_singleton.mp h) hT

theorem lookup_mem_unlinkTransfers {m : Iom} {c : ℕ} : c + 2 ∈ m.unlinkTransfers D x c := by
  unfold Iom.unlinkTransfers
  split
  · dsimp only
    split <;> simp
  · simp

theorem check_mem_rmdirTransfers {m : Iom} {c : ℕ} (hi : m.scan (lookupTest x) D = some (true,i)) :
    c + 5 ∈ m.rmdirTransfers D x c := by
  unfold Iom.rmdirTransfers
  rw [hi]
  dsimp only
  split <;> simp

/-- A count that has gone up is no count undone. -/
theorem Iom.Unremoved.not_counted {m m' : Iom} {r : ℤ} (h : m.Unremoved D x r m')
    (hc : m'.sbi.sbFreeInodes = m.sbi.sbFreeInodes + 1 ∨ r = lab4Success ∨ m'.sbi.sbFreeBlocks = m.sbi.sbFreeBlocks + 1) :
    False := by
  rcases hc with hc | hc | hc
  · have := h.freeInodes
    omega
  · have := h.error
    rw [hc] at this
    exact absurd this (by decide)
  · have := h.freeBlocks
    omega

namespace Iom.Sane
variable (h : s.iom.Sane) (hD : s.iom.tree.kind D = some .dir) (hx : ValidName x) (hrec : s.iom.Reclaimable D x)
include h hD hx hrec

theorem unlink_unremoved_iff (hT : T ∈ s.iom.unlinkTransfers D x s.clock) :
    ∃ r s', doUnlink (s.iom.inode D) x (e.failingAt T) s = some (r,s') ∧
      (s.iom.Unremoved D x r s'.iom ↔ T = s.clock + 2) := by
  refine wp_false.mp ?_
  by_cases hc : T = s.clock + 2
  · have hf : (e.failingAt T).ioFails (s.clock + 2) = true := hc ▸ failingAt_self
    refine h.wp_doUnlink_at failingAt_malloc hD hx hrec (fun s' _ h' => ?_) (fun _ _ _ hn _ => ?_) (fun _ _ _ hn _ _ => ?_)
    · rw [h']
      exact iff_of_true (.refl (by decide)) hc
    · cases hf.symm.trans hn
    · cases hf.symm.trans hn
  · have hf : (e.failingAt T).ioFails (s.clock + 2) = false := failingAt_of_ne (Ne.symm hc)
    obtain ⟨i,hi⟩ := mem_unlinkTransfers hT hc
    refine h.wp_doUnlink_at failingAt_malloc hD hx hrec (fun _ hn _ => ?_) (fun _ _ _ _ hl => ?_)
      (fun r s' _ _ _ hr => ?_)
    · cases hf.symm.trans hn
    · cases hi.symm.trans hl
    · exact iff_of_false (fun hun => hun.not_counted (.inr (hr.imp_right And.right))) hc

theorem rmdir_unremoved_iff (hsearch : s.iom.Searchable D x) (hT : T ∈ s.iom.rmdirTransfers D x s.clock) :
    ∃ r s', doRmdir (s.iom.inode D) x (e.failingAt T) s = some (r,s') ∧
      (s.iom.Unremoved D x r s'.iom ↔ T = s.clock + 2 ∨ T = s.clock + 5) := by
  have hmiss : ∀ l, (e.failingAt T).ioFails (s.clock + 2) = false → s.iom.scan (lookupTest x) D ≠ some (false,l) := by
    intro l hf hl
    have hc : T ≠ s.clock + 2 := fun hc => by
      rw [hc, failingAt_self] at hf
      cases hf
    obtain ⟨i,hi,_⟩ := mem_rmdirTransfers hT hc
    cases hi.symm.trans hl
  refine wp_false.mp ?_
  by_cases hc : T = s.clock + 2 ∨ T = s.clock + 5
  · have hf : (e.failingAt T).ioFails (s.clock + 2) = true ∨ (e.failingAt T).ioFails (s.clock + 5) = true := by
      rcases hc with rfl | rfl
      · exact .inl failingAt_self
      · exact .inr failingAt_self
    refine h.wp_doRmdir_at failingAt_malloc hD hx hrec hsearch (fun s' _ h' => ?_) (fun _ _ l hn hl => absurd hl (hmiss l hn))
      (fun _ _ _ _ hn hn' _ _ => ?_) (fun _ _ hn hn' _ => ?_)
    · rw [h']
      exact iff_of_true (.refl (by decide)) hc
    · rcases hf with hf | hf
      · cases hf.symm.trans hn
      · cases hf.symm.trans hn'
    · rcases hf with hf | hf
      · cases hf.symm.trans hn
      · cases hf.symm.trans hn'
  · have hf : (e.failingAt T).ioFails (s.clock + 2) = false := failingAt_of_ne (fun hn => hc (.inl hn.symm))
    have hf' : (e.failingAt T).ioFails (s.clock + 5) = false := failingAt_of_ne (fun hn => hc (.inr hn.symm))
    obtain ⟨i,hi,hempty⟩ := mem_rmdirTransfers hT (fun hn => hc (.inl hn))
    obtain ⟨j,hj⟩ := hempty (fun hn => hc (.inr hn))
    refine h.wp_doRmdir_at failingAt_malloc hD hx hrec hsearch (fun _ hn _ => ?_) (fun _ _ l hn hl => absurd hl (hmiss l hn))
      (fun _ _ i' j' _ _ hi' hj' => ?_) (fun r s' _ _ hr => ?_)
    · rcases hn with hn | hn
      · cases hf.symm.trans hn
      · cases hf'.symm.trans hn
    · cases hi.symm.trans hi'
      cases hj.symm.trans hj'
    · exact iff_of_false (fun hun => hun.not_counted (.inl hr)) hc

end Iom.Sane

/-- In every sane state, whatever one transfer ahead of the flushes fails: an unlink is undone and reported
exactly when it is the read of the directory, a removal of a directory exactly when it is that read or the one
that looks for used slots. -/
theorem removal_unremoved_iff (h : s.iom.Sane) (hD : s.iom.tree.kind D = some .dir) (hx : ValidName x)
    (hrec : s.iom.Reclaimable D x) :
    (∀ T ∈ s.iom.unlinkTransfers D x s.clock, ∃ r s', doUnlink (s.iom.inode D) x (e.failingAt T) s = some (r,s') ∧
      (s.iom.Unremoved D x r s'.iom ↔ T = s.clock + 2)) ∧
    (s.iom.Searchable D x → ∀ T ∈ s.iom.rmdirTransfers D x s.clock,
      ∃ r s', doRmdir (s.iom.inode D) x (e.failingAt T) s = some (r,s') ∧
        (s.iom.Unremoved D x r s'.iom ↔ T = s.clock + 2 ∨ T = s.clock + 5)) :=
  ⟨fun _ hT => h.unlink_unremoved_iff hD hx hrec hT,fun hsearch _ hT => h.rmdir_unremoved_iff hD hx hrec hsearch hT⟩

/-! ## A new volume -/

/-- The entry of an empty file cannot be written back; its unlink succeeds. -/
theorem unlink_passes_failed_write : ∃ s0 s T s', formatAndMount quietEnv (blankDisk 80) = some (true,s0) ∧
    Reached Request.run Succeeds s0 s ∧ T ∈ s.iom.unlinkTransfers 2 [102] s.clock ∧
    doUnlink (s.iom.inode 2) [102] (quietEnv.failingAt T) s = some (lab4Success,s') ∧
    ¬s.iom.Unremoved 2 [102] lab4Success s'.iom := by
  obtain ⟨s0,s,hrun,hr,hroot,hslot,_,hfile,hroom⟩ := makeFile_run
  have h := grown_of_reached quietEnv_nominal (.inl rfl) hrun hr
  have hs := h.steady.sane
  have hsize := h.steady.empty 3 hfile
  obtain ⟨hscan,hino⟩ := h.named_scan ⟨hroot,hslot⟩
  rw [hs.ino_dir hroot] at hscan
  have hrec : s.iom.Reclaimable 2 [102] := by
    intro l hl
    cases hscan.symm.trans hl
    rw [hino]
    exact ⟨(Books.kind_eq_file.mp hfile).1,hroom,fun hn => absurd hsize hn,fun hn => absurd hsize hn⟩
  have hT : s.clock + 4 ∈ s.iom.unlinkTransfers 2 [102] s.clock := by
    unfold Iom.unlinkTransfers
    rw [hscan]
    dsimp only
    rw [hino, if_neg (fun hn => hn.2 hsize)]
    simp
  have hrm : wp False (doUnlink (s.iom.inode 2) [102]) (fun r _ => r = lab4Success) (quietEnv.failingAt (s.clock + 4)) s := by
    refine hs.wp_doUnlink_at failingAt_malloc hroot ⟨by decide,by decide,by decide⟩ hrec (fun _ hn _ => ?_)
      (fun _ _ _ _ hn => ?_) (fun r s' i _ hi hr => ?_)
    · rw [failingAt_of_ne (by omega)] at hn
      cases hn
    · cases hscan.symm.trans hn
    · cases hscan.symm.trans hi
      rw [hino] at hr
      exact hr.resolve_right (fun hn => hn.1 hsize)
  obtain ⟨r,s',hrm,rfl⟩ := wp_false.mp hrm
  exact ⟨s0,s,_,s',hrun,hr,hT,hrm,fun hun => hun.not_counted (.inr (.inl rfl))⟩

theorem Iom.Accounted.reclaimable {m : Iom} (h : m.Accounted) (hD : m.LiveDir D) (hx : ValidName x) (hdot : x ≠ dotName)
    (hdd : x ≠ dotdotName) (hi : m.InodeRoom 1) (hb : m.BlockRoom 1) : m.Reclaimable D x := by
  intro l hl
  have hlive := (h.sane.entry_live (h.sane.entry_of_scan (h.kind_iff.mpr hD) hx hdot hdd hl)).1
  exact ⟨hlive,h.releasable (h.live_iff.mp hlive) hi hb⟩

/-- A name of a new volume is found where it is. -/
theorem Iom.Consistent.scan_root {m : Iom} (hc : m.Consistent) (hx : ValidName x) (hn : m.SlotNames 2 i x k) :
    m.scan (lookupTest x) 2 = some (true,i) ∧ m.slotIno (m.inode 2) i = k := by
  have hs := hc.accounted
  have hroot := hs.kind_iff.mpr hc.root
  refine ⟨hs.mounted.scan_of_binds hs.sane.ledger hroot hs.unique hx.lt (hs.slot_iff.mpr ⟨hc.root,hn⟩),?_⟩
  rw [Iom.slotIno, hs.sane.ino_dir hroot]
  exact hn.ino

/-- The reads are survived: of the directory that holds the name, and of the directory it names. -/
theorem removal_unremoved_iff_reads : ∃ s0 s r t r' t', formatAndMount quietEnv (blankDisk 80) = some (true,s0) ∧
    makeTwo quietEnv s0 = some ((lab4Success,lab4Success),s) ∧
    doUnlink (s.iom.inode 2) [100] (quietEnv.failingAt (s.clock + 2)) s = some (r,t) ∧ s.iom.Unremoved 2 [100] r t.iom ∧
    doRmdir (s.iom.inode 2) [100] (quietEnv.failingAt (s.clock + 5)) s = some (r',t') ∧
    s.iom.Unremoved 2 [100] r' t'.iom := by
  obtain ⟨s0,s,hrun,hmake,hc,hroom,h1,_,hd,_⟩ := makeTwo_run
  have hs := hc.accounted
  have hx : ValidName [100] := ⟨by decide,by decide,by decide⟩
  obtain ⟨hscan,hino⟩ := hc.scan_root hx (slotNames_of_test h1)
  have hrec := hs.reclaimable hc.root hx (by decide) (by decide) hroom.one.1 hroom.one.2
  have hdir : ∀ i, s.iom.scan (lookupTest [100]) 2 = some (true,i) →
      s.iom.tree.kind (s.iom.slotIno (s.iom.inode 2) i) = some .dir := by
    intro i hi
    cases hscan.symm.trans hi
    rw [hino]
    exact hs.kind_iff.mpr ⟨(hc.names 2 2 _ 3 hc.root le_rfl (slotNames_of_test h1)).2,hd⟩
  obtain ⟨hunlink,hrmdir⟩ := removal_unremoved_iff (e := quietEnv) hs.sane (hs.kind_iff.mpr hc.root) hx hrec
  obtain ⟨r,t,hu,hiff⟩ := hunlink (s.clock + 2) lookup_mem_unlinkTransfers
  obtain ⟨r',t',hr,hiff'⟩ := hrmdir (hs.sane.searchable hdir) (s.clock + 5) (check_mem_rmdirTransfers hscan)
  exact ⟨s0,s,r,t,r',t',hrun,hmake,hu,hiff.mpr rfl,hr,hiff'.mpr (.inr rfl)⟩

end SimpleFS
