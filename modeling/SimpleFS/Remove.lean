import SimpleFS.Create

/-! # What removing a file or a directory does

A removal marks one directory slot deleted; when the last link goes it also gives back the record and
its block. The block is wiped, the entry keeps its name.
-/
namespace SimpleFS
open Bytes Machine Prog

/-- A record that carries its own number and owns at most the one block its first pointer names. -/
structure Iom.RecordOk (m : Iom) (k : ℕ) : Prop where
  ino : (m.inode k).iIno.toNat = k
  tail : (m.inode k).iSize ≠ 0 → ∀ j, j ≠ 0 → (m.inode k).iBlocks j = 0
  owns : (m.inode k).iSize ≠ 0 → ∃ b, m.dataAddr k = m.blockAddr b ∧ m.blockAddr b + m.clusterSize ≤ 2^31

/-- A block is given back and wiped. -/
def Iom.wipeBlock (m : Iom) (b : ℕ) : Iom := (m.freeBlock b).writeDev (m.blockAddr b) m.clusterSize zeros

def Iom.unlinkEntry (m : Iom) (a : ℕ) (d : DirEntry) : Iom := (m.writeEntry a d).flushAll
def Iom.unlinkEmpty (m : Iom) (k a : ℕ) (d : DirEntry) : Iom := (m.freeInode k).unlinkEntry a d
def Iom.unlinkFile (m : Iom) (k b a : ℕ) (d : DirEntry) : Iom := ((m.wipeBlock b).freeInode k).unlinkEntry a d

def Iom.removeDir (m : Iom) (k b a : ℕ) (d : DirEntry) (par : ℕ) : Iom :=
  ((((m.freeInode k).wipeBlock b).writeEntry a d).addLink (· - 1) par).flushAll

/-- The inode number that slot `i` of the parent holds. -/
def Iom.slotIno (m : Iom) (p : Inode) (i : ℕ) : ℕ := (m.slotEntry p.iIno.toNat i).dIno.toNat

/-- Bit and counters of record `k` and of the block it names can be given back. -/
structure Iom.Releasable (m : Iom) (v : Inode) : Prop where
  inodes : m.InodeRoom 1
  blocks : v.iSize ≠ 0 → m.BlockRoom 1
  bitmap : v.iSize ≠ 0 → ∀ b, (v.iBlocks 0).toNat = m.blockAddr b → b < 8 * m.clusterSize

/-- Nothing that the removal of a name touches lies outside a buffer or overflows a counter. -/
structure Iom.Removable (m : Iom) (p : Inode) (name : List UInt8) : Prop where
  parent : 2 ≤ p.iIno.toNat → p.iIno.toNat < m.inodeNum
  scan : (m.scan (lookupTest name) p.iIno.toNat).isSome
  target : ∀ i, 2 ≤ p.iIno.toNat → m.scan (lookupTest name) p.iIno.toNat = some (true,i) →
    m.slotIno p i < m.inodeNum ∧ m.Releasable (m.inode (m.slotIno p i))

variable {u : Prop} {e : Env} {s : Sys} {p v : Inode} {name : List UInt8}

/-! ## Blocks -/

theorem wp_deleteDirect_zero {cs : ℕ} {Q : ℤ → Sys → Prop} (js : List (Fin 15))
    (hz : ∀ j ∈ js, v.iBlocks j = 0) (h : Q lab4Success s) : wp u (deleteDirect cs v js) Q e s := by
  induction js with
  | nil =>
    rw [deleteDirect, wp_pure]
    exact h
  | cons j js ih =>
    have hj : ¬v.blockAt j ≠ 0 := by
      rw [Inode.blockAt, hz j List.mem_cons_self]
      decide
    rw [deleteDirect, if_neg hj]
    exact ih (fun i hi => hz i (List.mem_cons_of_mem j hi))

theorem wp_deleteIndirect_zero {j : Fin 15} {type : ℤ} {Q : Unit → Sys → Prop} (hz : v.iBlocks j = 0)
    (h : Q () s) : wp u (deleteIndirect v j type) Q e s := by
  unfold deleteIndirect
  rw [if_neg (by simpa using hz), wp_pure]
  exact h

theorem wp_deleteBlock {a : ℕ} {Q : ℤ → Sys → Prop} (hio : e.IoOk) (hm : s.iom.Mounted)
    (ha : (v.iBlocks 0).toNat = a) (hpos : 0 < a) (hlt : a < 2^31) (hz : ∀ j, j ≠ 0 → v.iBlocks j = 0)
    (h : ∀ s', s'.iom = s.iom.writeDev a s.iom.clusterSize zeros → Q lab4Success s') :
    wp u (deleteBlock v) Q e s := by
  have hblock : v.blockAt 0 = (a : ℕ) := by rw [Inode.blockAt_eq (ha ▸ hlt), ha]
  unfold deleteBlock
  rw [wp_bind, wp_getIom, wp_bind, deleteDirect, hblock, if_pos (by omega), wp_bind]
  apply wp_pwrite_ok hio (Int.natCast_nonneg _)
  intro s1 h1
  rw [if_neg hm.clusterSize_ne_error]
  apply wp_deleteDirect_zero
  · intro j hj
    refine hz j (fun h0 => ?_)
    subst h0
    revert hj
    decide
  rw [if_neg (by decide), wp_bind]
  apply wp_deleteIndirect_zero (hz 12 (by decide))
  rw [wp_bind]
  apply wp_deleteIndirect_zero (hz 13 (by decide))
  rw [wp_bind]
  apply wp_deleteIndirect_zero (hz 14 (by decide))
  rw [wp_pure]
  exact h s1 (by rw [h1, Int.toNat_natCast])

theorem Iom.Mounted.blockAddr_pos {m : Iom} (hm : m.Mounted) (b : ℕ) : 0 < m.blockAddr b := by
  have := hm.cluster_le
  unfold Iom.blockAddr
  omega

theorem wp_unlinkData {Q : ℤ → Sys → Prop} (hio : e.IoOk) (hm : s.iom.Mounted)
    (hu : ¬s.iom.Releasable v → u)
    (hz : v.iSize ≠ 0 → ∀ j, j ≠ 0 → v.iBlocks j = 0)
    (howns : v.iSize ≠ 0 → ∃ b, (v.iBlocks 0).toNat = s.iom.blockAddr b ∧ s.iom.blockAddr b + s.iom.clusterSize ≤ 2^31)
    (hempty : v.iSize = 0 → Q lab4Success s)
    (hdata : ∀ s' b, v.iSize ≠ 0 → (v.iBlocks 0).toNat = s.iom.blockAddr b → s'.iom = s.iom.wipeBlock b →
      Q lab4Success s') : wp u (unlinkData v) Q e s := by
  unfold unlinkData
  rw [wp_ite, wp_pure]
  refine ⟨hempty,fun hsize => ?_⟩
  obtain ⟨b,hb,hlt⟩ := howns hsize
  have hcs := hm.cluster_le
  rw [wp_bind]
  refine wp_deleteBlockInbmap hm hb (by omega)
    (fun hn => hu (fun hr => hn ⟨hr.bitmap hsize b hb,hr.blocks hsize⟩)) (fun s1 _ h1 => ?_)
  rw [wp_bind]
  apply wp_deleteBlock hio (h1 ▸ hm.freeBlock) hb (hm.blockAddr_pos b) (by omega) (hz hsize)
  intro s2 h2
  rw [if_neg (by decide), wp_pure]
  refine hdata s2 b hsize hb ?_
  rw [h2, h1, Iom.freeBlock_clusterSize]
  rfl

/-! ## The entry -/

theorem wp_writeBackEntry {d : DirEntry} {i : ℕ} {Q : Unit → Sys → Prop} (hio : e.IoOk)
    (hi : lab4DirEntrySize * i < 2^31) (hp : (p.iBlocks 0).toNat < 2^31)
    (h : ∀ s', s'.iom = s.iom.writeEntry (slotAddr p i) d → Q () s') :
    wp u (writeBackEntry p d (toS32 (lab4DirEntrySize * i : ℕ))) Q e s := by
  have hoff : entryOffset p ((lab4DirEntrySize * i : ℕ) : ℤ) = (slotAddr p i : ℕ) := by
    unfold entryOffset slotAddr
    rw [← Nat.cast_add, toU32_natCast (by omega)]
  unfold writeBackEntry
  rw [toS32_natCast hi, if_pos (by omega), hoff, wp_bind]
  apply wp_pwrite_ok hio (Int.natCast_nonneg _)
  intro s1 h1
  rw [wp_pure]
  exact h s1 (by rw [h1, Int.toNat_natCast]; rfl)

theorem wp_writeBackEntry_any {d : DirEntry} {x : ℤ} {Q : Unit → Sys → Prop} (h : ∀ s', s.iom.OnDev s'.iom → Q () s') :
    wp u (writeBackEntry p d x) Q e s := by
  unfold writeBackEntry
  rw [wp_ite, wp_pure]
  refine ⟨fun _ => ?_,fun _ => h s (.refl _)⟩
  rw [wp_bind]
  apply wp_pwrite_any
  intro _ s1 h1 _
  rw [wp_pure]
  exact h s1 h1

theorem scan_lt {m : Iom} {test : DirEntry → Option Bool} {k i : ℕ} (hm : m.Mounted) (h : m.scan test k = some (true,i)) :
    lab4DirEntrySize * i < 2^31 := by
  have hlt := (slotLoop_scan h).2.2 rfl
  have hcs := hm.cluster_le
  have hslots := hm.slots
  unfold lab4DirEntrySize at *
  omega

/-! ## Unlink -/

theorem wp_unlinkInode {k : ℕ} {Q : ℤ → Sys → Prop} (hio : e.IoOk) (hm : s.iom.Mounted)
    (hino : v.iLinksCount = 0 → v.iIno.toNat = k) (hk : k < s.iom.inodeNum)
    (hu : v.iLinksCount = 0 → ¬s.iom.Releasable v → u)
    (hz : v.iLinksCount = 0 → v.iSize ≠ 0 → ∀ j, j ≠ 0 → v.iBlocks j = 0)
    (howns : v.iLinksCount = 0 → v.iSize ≠ 0 →
      ∃ b, (v.iBlocks 0).toNat = s.iom.blockAddr b ∧ s.iom.blockAddr b + s.iom.clusterSize ≤ 2^31)
    (hkeep : v.iLinksCount ≠ 0 → Q lab4Success s)
    (hempty : ∀ s', v.iLinksCount = 0 → v.iSize = 0 → s.iom.InodeRoom 1 → s'.iom = s.iom.freeInode k → Q lab4Success s')
    (hdata : ∀ s' b, v.iLinksCount = 0 → v.iSize ≠ 0 → (v.iBlocks 0).toNat = s.iom.blockAddr b →
      s'.iom = (s.iom.wipeBlock b).freeInode k → Q lab4Success s') : wp u (unlinkInode v) Q e s := by
  unfold unlinkInode
  rw [wp_ite, wp_pure]
  refine ⟨hkeep,fun hlinks => ?_⟩
  rw [not_not] at hlinks
  replace hino := hino hlinks
  replace hu := hu hlinks
  rw [wp_bind]
  refine wp_unlinkData hio hm hu (hz hlinks) (howns hlinks) (fun hsize => ?_) (fun s1 b hsize hb h1 => ?_)
  · rw [if_neg (by decide), wp_bind]
    refine wp_deleteInode hm (hino ▸ hk) (fun hn => hu (fun hr => hn hr.inodes)) (fun s2 hroom h2 => ?_)
    rw [if_neg (by decide), wp_pure]
    exact hempty s2 hlinks hsize hroom (hino ▸ h2)
  · have hn1 : s1.iom.inodeNum = s.iom.inodeNum := by simp [h1, Iom.inodeNum, Iom.wipeBlock]
    rw [if_neg (by decide), wp_bind]
    refine wp_deleteInode (h1 ▸ hm.freeBlock.writeDev) (by rw [hino, hn1]; exact hk)
      (fun hn => hu (fun hr => hn ?_)) (fun s2 _ h2 => ?_)
    · rw [h1]
      exact (inodeRoom_freeBlock (k := b)).mpr hr.inodes
    rw [if_neg (by decide), wp_pure]
    rw [h1, hino] at h2
    exact hdata s2 b hlinks hsize hb h2

/-- Writing the entry back and flushing, the common end of both removals of a file. -/
theorem wp_unlinkEntry {i : ℕ} {d : DirEntry} {Q : ℤ → Sys → Prop} (hio : e.IoOk) (hm : s.iom.Mounted)
    (hi : lab4DirEntrySize * i < 2^31) (hp : (p.iBlocks 0).toNat < 2^31)
    (h : ∀ s', s'.iom = s.iom.unlinkEntry (slotAddr p i) d → Q lab4Success s') :
    wp u (do
      writeBackEntry p d (toS32 (lab4DirEntrySize * i : ℕ))
      updateMetadata
      return lab4Success) Q e s := by
  rw [wp_bind]
  apply wp_writeBackEntry hio hi hp
  intro s1 h1
  rw [wp_bind]
  apply wp_updateMetadata hio (h1 ▸ hm.writeEntry)
  intro s2 h2
  rw [wp_pure]
  exact h s2 (by rw [h2, h1]; rfl)

/-- `do_unlink` changes nothing, takes an entry away, or takes the file with it. -/
theorem wp_doUnlink {Q : ℤ → Sys → Prop} (hio : e.IoOk) (hm : s.iom.Mounted) (hp : s.iom.Parent p)
    (hpar : 2 ≤ p.iIno.toNat → s.iom.inodeNum ≤ p.iIno.toNat → u)
    (hscan : s.iom.scan (lookupTest name) p.iIno.toNat = none → u)
    (hbig : ∀ i, 2 ≤ p.iIno.toNat → s.iom.scan (lookupTest name) p.iIno.toNat = some (true,i) →
      s.iom.inodeNum ≤ s.iom.slotIno p i → u)
    (hroom : ∀ i, 2 ≤ p.iIno.toNat → s.iom.scan (lookupTest name) p.iIno.toNat = some (true,i) →
      (s.iom.inode (s.iom.slotIno p i)).iLinksCount = 1 → ¬s.iom.Releasable (s.iom.inode (s.iom.slotIno p i)) → u)
    (hrec : ∀ i, 2 ≤ p.iIno.toNat → s.iom.scan (lookupTest name) p.iIno.toNat = some (true,i) →
      2 ≤ s.iom.slotIno p i → s.iom.slotIno p i < s.iom.inodeNum →
      (s.iom.inode (s.iom.slotIno p i)).iLinksCount = 1 → s.iom.RecordOk (s.iom.slotIno p i))
    (herr : ∀ s', s'.iom = s.iom →
      (e.MallocOk → 2 ≤ p.iIno.toNat →
        ∃ i, s.iom.scan (lookupTest name) p.iIno.toNat = some (true,i) ∧ s.iom.slotIno p i < 2) → Q lab4Error s')
    (hnot : ∀ s' i, s'.iom = s.iom → 2 ≤ p.iIno.toNat → p.iIno.toNat < s.iom.inodeNum →
      s.iom.scan (lookupTest name) p.iIno.toNat = some (false,i) → Q (-enoent) s')
    (hok : ∀ s' i k d, 2 ≤ p.iIno.toNat → p.iIno.toNat < s.iom.inodeNum →
      s.iom.scan (lookupTest name) p.iIno.toNat = some (true,i) → s.iom.slotIno p i = k → 2 ≤ k → k < s.iom.inodeNum →
      (s.iom.slotEntry p.iIno.toNat i).deleted = d →
      ((s.iom.inode k).iLinksCount ≠ 1 ∧ s'.iom = s.iom.unlinkEntry (slotAddr p i) d ∨
        (s.iom.inode k).iLinksCount = 1 ∧ (s.iom.inode k).iSize = 0 ∧ s.iom.InodeRoom 1 ∧
          s'.iom = s.iom.unlinkEmpty k (slotAddr p i) d ∨
        (s.iom.inode k).iLinksCount = 1 ∧ (s.iom.inode k).iSize ≠ 0 ∧ ∃ b, s.iom.dataAddr k = s.iom.blockAddr b ∧
          s'.iom = s.iom.unlinkFile k b (slotAddr p i) d) → Q lab4Success s') :
    wp u (doUnlink p name) Q e s := by
  unfold doUnlink
  rw [wp_bind]
  refine wp_lab4Lookup hio hm hp.lookup ?_ hpar (fun _ _ => hscan) ?_ ?_
  · intro s1 h1 hc
    dsimp only
    rw [if_pos rfl, wp_pure]
    refine herr s1 h1 (fun hok hlo => ?_)
    rcases hc with hc | hc
    · omega
    · exact absurd hok hc
  · intro s1 i h1 hlo hhi hscan
    rw [lookupResult_delete]
    dsimp only
    rw [if_neg (by decide), if_neg (by decide), wp_bind]
    have hR := hrec i hlo hscan
    have hQ := fun s' k d => hok s' i k d hlo hhi hscan
    have hE : ∀ s', s'.iom = s.iom → (e.MallocOk → s.iom.slotIno p i < 2) → Q lab4Error s' :=
      fun s' hs' hc => herr s' hs' (fun hmal _ => ⟨i,hscan,hc hmal⟩)
    replace hbig := hbig i hlo hscan
    replace hroom := hroom i hlo hscan
    have hi := scan_lt hm hscan
    generalize hd : s.iom.slotEntry p.iIno.toNat i = d at hQ
    have hslot : s.iom.slotIno p i = d.deleted.dIno.toNat := by
      rw [Iom.slotIno, hd]
      rfl
    rw [hslot] at hR hE hbig hroom
    replace hQ := fun s' => hQ s' _ d.deleted hslot
    generalize hk : d.deleted.dIno.toNat = k at hR hQ hE hbig hroom
    refine wp_doReadInode (fun s2 h2 hc => ?_) (fun _ hn => ?_) (fun s2 h2 hk2 hkn => ?_)
    · rw [wp_pure]
      refine hE s2 (h2.trans h1) (fun hok' => ?_)
      rcases hc with hc | hc
      · exact hk ▸ hc
      · exact absurd hok' hc
    · rw [h1, hk] at hn
      exact hbig hn
    rw [h1] at h2 hkn
    rw [h1]
    rw [hk] at hk2 hkn ⊢
    replace hR := hR hk2 hkn
    replace hQ := fun s' => hQ s' hk2 hkn rfl
    generalize hv : s.iom.inode k = v at hR hQ hroom
    have hlinks : v.iLinksCount - 1 = 0 ↔ v.iLinksCount = 1 := by
      rw [UInt32.sub_eq_iff_eq_add, UInt32.zero_add]
    have hm2 : s2.iom.Mounted := h2 ▸ hm
    dsimp only
    rw [wp_bind]
    refine wp_unlinkInode hio hm2 (fun hl => ?_) (h2 ▸ hkn) (fun hl hn => hroom (hlinks.mp hl) (fun hr => hn ?_)) (fun hl => ?_)
      (fun hl hsize => ?_) ?_ ?_ ?_
    · have := (hR (hlinks.mp hl)).ino
      rwa [hv] at this
    · rw [h2]
      exact ⟨hr.inodes,hr.blocks,hr.bitmap⟩
    · have := (hR (hlinks.mp hl)).tail
      rwa [hv] at this
    · have := (hR (hlinks.mp hl)).owns (by rwa [hv])
      rwa [Iom.dataAddr, hv, ← h2] at this
    · intro hl
      rw [if_neg (by decide)]
      apply wp_unlinkEntry hio hm2 hi hp.addr
      intro s3 h3
      exact hQ s3 (.inl ⟨fun h => hl (hlinks.mpr h),h2 ▸ h3⟩)
    · intro s3 hl hsize hroom h3
      rw [if_neg (by decide)]
      apply wp_unlinkEntry hio (h3 ▸ hm2.freeInode) hi hp.addr
      intro s4 h4
      exact hQ s4 (.inr (.inl ⟨hlinks.mp hl,hsize,h2 ▸ hroom,by rw [h4, h3, h2]; rfl⟩))
    · intro s3 b hl hsize hb h3
      rw [if_neg (by decide)]
      apply wp_unlinkEntry hio (h3 ▸ hm2.freeBlock.writeDev.freeInode) hi hp.addr
      intro s4 h4
      refine hQ s4 (.inr (.inr ⟨hlinks.mp hl,hsize,b,?_,by rw [h4, h3, h2]; rfl⟩))
      rw [Iom.dataAddr, hv, ← h2]
      exact hb
  · intro s1 i h1 hlo hhi hscan
    dsimp only
    rw [if_neg (by decide), if_pos rfl, wp_pure]
    exact hnot s1 i h1 hlo hhi hscan

/-! ## Rmdir -/

/-- The loop of `check_dir_deletable` over the slots behind the two dot entries. -/
def Iom.usedScan (m : Iom) (k : ℕ) : Option (Bool × ℕ) :=
  slotLoop usedTest (m.inode k).iSize.toInt (m.dev.bytes.shift (m.dataAddr k)) (m.clusterSize / lab4DirEntrySize - 2) 2

theorem wp_checkDirDeletable {k : ℕ} {Q : ℤ → Sys → Prop} (hio : e.IoOk) (hm : s.iom.Mounted)
    (haddr : s.iom.dataAddr k < 2^31) (hu : s.iom.usedScan k = none → u)
    (herr : ∀ s', s'.iom = s.iom → ¬e.MallocOk → Q lab4Error s')
    (hused : ∀ s' j, s'.iom = s.iom → s.iom.usedScan k = some (true,j) → Q (-enotempty) s')
    (hempty : ∀ s' j, s'.iom = s.iom → s.iom.usedScan k = some (false,j) → Q lab4Success s') :
    wp u (checkDirDeletable (s.iom.inode k)) Q e s := by
  unfold checkDirDeletable
  rw [wp_bind]
  apply wp_malloc_cases
  intro c s1 h1 hc
  cases c with
  | false =>
    rw [if_pos (by decide), wp_pure]
    exact herr s1 h1 (hc rfl)
  | true =>
    have ha : (s.iom.inode k).blocknr = (s.iom.dataAddr k : ℕ) := Inode.blocknr_eq haddr
    have hcs := hm.cluster_le
    have hslots := hm.slots
    rw [if_neg (by decide), wp_bind, wp_getIom, h1, wp_bind, ha]
    apply wp_pread_ok hio (Int.natCast_nonneg _) le_rfl
    intro s2 h2
    rw [h1] at h2 ⊢
    dsimp only
    rw [if_neg hm.clusterSize_ne_error, wp_bind, wp_lift, Int.toNat_natCast]
    have hread : slotLoop usedTest (s.iom.inode k).iSize.toInt
        (splice zeros 0 s.iom.clusterSize (s.iom.dev.bytes.shift (s.iom.dataAddr k)))
        (s.iom.clusterSize / lab4DirEntrySize - 2) 2 = s.iom.usedScan k :=
      slotLoop_congr (fun l hl => entryAt_read (by unfold lab4DirEntrySize at *; omega))
    rw [hread]
    refine ⟨hu,?_⟩
    rintro ⟨found,j⟩ hscan
    dsimp only
    rw [wp_ite, wp_pure, wp_pure]
    refine ⟨fun hf => hused s2 j h2 (hf ▸ hscan),fun hf => hempty s2 j h2 ?_⟩
    rw [Bool.not_eq_true] at hf
    rwa [hf] at hscan

/-- `do_rmdir` once no used slot was found. -/
def removeEmptyDir (clusterSize : ℕ) (parentInode delInode : Inode) (delEntry : DirEntry) (isdelete : ℤ) : M ℤ := do
  let res ← deleteInode delInode
  if res = lab4Error then return lab4Error
  deleteBlockInbmap delInode
  if !(← malloc) then undefined
  else if !(← malloc) then undefined
  else
    let blocknr : ℤ := (delInode.iBlocks 0).toNat
    let (res,bufBackup) ← pread clusterSize zeros clusterSize blocknr
    if res = lab4Error then
      let _ ← restoreDbmap
      let _ ← restoreIbmap
      let _ ← restoreItble
      return lab4Error
    let res ← pwrite zeros clusterSize blocknr
    if res = lab4Error then
      restoreData bufBackup clusterSize blocknr
      let _ ← restoreDbmap
      let _ ← restoreIbmap
      let _ ← restoreItble
      return lab4Error
    writeBackEntry parentInode delEntry isdelete
    decLink parentInode.iIno
    updateMetadata
    return lab4Success

/-- Up to the check for used slots nothing changes. -/
theorem wp_doRmdir_checked {Q : ℤ → Sys → Prop} (hio : e.IoOk) (hm : s.iom.Mounted) (hp : s.iom.Parent p)
    (hpar : 2 ≤ p.iIno.toNat → s.iom.inodeNum ≤ p.iIno.toNat → u)
    (hscan : s.iom.scan (lookupTest name) p.iIno.toNat = none → u)
    (hbig : ∀ i, 2 ≤ p.iIno.toNat → s.iom.scan (lookupTest name) p.iIno.toNat = some (true,i) →
      s.iom.inodeNum ≤ s.iom.slotIno p i → u)
    (hloop : ∀ i, 2 ≤ p.iIno.toNat → s.iom.scan (lookupTest name) p.iIno.toNat = some (true,i) →
      s.iom.usedScan (s.iom.slotIno p i) = none → u)
    (haddr : ∀ i, 2 ≤ p.iIno.toNat → s.iom.scan (lookupTest name) p.iIno.toNat = some (true,i) →
      2 ≤ s.iom.slotIno p i → s.iom.slotIno p i < s.iom.inodeNum → s.iom.dataAddr (s.iom.slotIno p i) < 2^31)
    (herr : ∀ s', s'.iom = s.iom → (e.MallocOk → p.iIno.toNat < 2) → Q lab4Error s')
    (hbad : ∀ s' i, 2 ≤ p.iIno.toNat → s.iom.scan (lookupTest name) p.iIno.toNat = some (true,i) →
      s.iom.slotIno p i < 2 ∨ ¬e.MallocOk → Q lab4Error s')
    (hnot : ∀ s' i, s'.iom = s.iom → 2 ≤ p.iIno.toNat → p.iIno.toNat < s.iom.inodeNum →
      s.iom.scan (lookupTest name) p.iIno.toNat = some (false,i) → Q (-enoent) s')
    (hused : ∀ s' i j, s'.iom = s.iom → s.iom.scan (lookupTest name) p.iIno.toNat = some (true,i) →
      s.iom.usedScan (s.iom.slotIno p i) = some (true,j) → Q (-enotempty) s')
    (hempty : ∀ s' i j, s'.iom = s.iom → 2 ≤ p.iIno.toNat → p.iIno.toNat < s.iom.inodeNum →
      s.iom.scan (lookupTest name) p.iIno.toNat = some (true,i) → 2 ≤ s.iom.slotIno p i →
      s.iom.slotIno p i < s.iom.inodeNum → s.iom.usedScan (s.iom.slotIno p i) = some (false,j) →
      wp u (removeEmptyDir s.iom.clusterSize p (s.iom.inode (s.iom.slotIno p i)) (s.iom.slotEntry p.iIno.toNat i).deleted
        (toS32 (lab4DirEntrySize * i : ℕ))) Q e s') :
    wp u (doRmdir p name) Q e s := by
  unfold doRmdir
  rw [wp_bind, wp_getIom, wp_bind]
  refine wp_lab4Lookup hio hm hp.lookup ?_ hpar (fun _ _ => hscan) ?_ ?_
  · intro s1 h1 hc
    dsimp only
    rw [if_pos rfl, wp_pure]
    refine herr s1 h1 (fun hok => ?_)
    rcases hc with hc | hc
    · exact hc
    · exact absurd hok hc
  · intro s1 i h1 hlo hhi hfound
    rw [lookupResult_delete]
    dsimp only
    rw [if_neg (by decide), if_neg (by decide), wp_bind]
    replace hbig := hbig i hlo hfound
    replace hloop := hloop i hlo hfound
    replace haddr := haddr i hlo hfound
    replace hbad := fun s' => hbad s' i hlo hfound
    replace hused := fun s' j hs' => hused s' i j hs' hfound
    replace hempty := fun s' j hs' => hempty s' i j hs' hlo hhi hfound
    generalize hd : s.iom.slotEntry p.iIno.toNat i = d at hempty
    have hslot : s.iom.slotIno p i = d.deleted.dIno.toNat := by
      rw [Iom.slotIno, hd]
      rfl
    rw [hslot] at hbig hloop haddr hbad hused hempty
    generalize hk : d.deleted.dIno.toNat = k at hbig hloop haddr hbad hused hempty
    refine wp_doReadInode (fun s2 h2 hc => ?_) (fun _ hn => ?_) (fun s2 h2 hk2 hkn => ?_)
    · have hm2 : s2.iom.Mounted := h2 ▸ h1 ▸ hm
      dsimp only at hc ⊢
      rw [hk] at hc
      rw [wp_bind]
      refine wp_restoreIbmap hm2 (fun _ b s3 _ h3 => ?_)
      rw [wp_bind]
      refine wp_restoreItble (h3 ▸ hm2.setIbmap) (fun _ b' s4 _ _ => ?_)
      rw [wp_pure]
      exact hbad s4 hc
    · rw [h1, hk] at hn
      exact hbig hn
    dsimp only at hk2 hkn ⊢
    rw [h1] at h2 hkn
    rw [h1]
    rw [hk] at hk2 hkn ⊢
    rw [wp_bind, ← h2]
    apply wp_checkDirDeletable hio (h2 ▸ hm) (by rw [h2]; exact haddr hk2 hkn) (fun hn => hloop (h2 ▸ hn))
    · intro s3 h3 hc
      rw [if_pos rfl, wp_pure]
      exact herr s3 (h3.trans h2) (fun hok => absurd hok hc)
    · intro s3 j h3 hj
      rw [if_neg (by decide), if_pos rfl, wp_pure]
      exact hused s3 j (h3.trans h2) (h2 ▸ hj)
    intro s3 j h3 hj
    rw [if_neg (by decide), if_neg (by decide), h2, hm.sbiCluster]
    exact hempty s3 j (h3.trans h2) hk2 hkn (h2 ▸ hj)
  · intro s1 i h1 hlo hhi hmiss
    dsimp only
    rw [if_neg (by decide), if_pos rfl, wp_pure]
    exact hnot s1 i h1 hlo hhi hmiss

/-- The directory goes with its record and its block. -/
theorem wp_removeEmptyDir {m : Iom} {k b i : ℕ} {d : DirEntry} {Q : ℤ → Sys → Prop} (hio : e.IoOk) (hs : s.iom = m)
    (hm : m.Mounted)
    (hi : lab4DirEntrySize * i < 2^31) (hp : (p.iBlocks 0).toNat < 2^31) (hpar : p.iIno.toNat < m.inodeNum)
    (hino : (m.inode k).iIno.toNat = k) (hk : k < m.inodeNum) (hb : m.dataAddr k = m.blockAddr b)
    (hlt : m.blockAddr b + m.clusterSize ≤ 2^31)
    (hu : ¬(m.InodeRoom 1 ∧ m.BlockRoom 1 ∧ b < 8 * m.clusterSize ∧ e.MallocOk) → u)
    (h : ∀ s', m.InodeRoom 1 → m.BlockRoom 1 →
      s'.iom = m.removeDir k b (slotAddr p i) d p.iIno.toNat → Q lab4Success s') :
    wp u (removeEmptyDir m.clusterSize p (m.inode k) d (toS32 (lab4DirEntrySize * i : ℕ))) Q e s := by
  subst hs
  have hcs := hm.cluster_le
  unfold removeEmptyDir
  rw [wp_bind]
  refine wp_deleteInode hm (by rw [hino]; exact hk) (fun hn => hu (fun hr => hn hr.1)) (fun s1 hinodes h1 => ?_)
  rw [hino] at h1
  have hm1 : s1.iom.Mounted := h1 ▸ hm.freeInode
  have hcs1 : s1.iom.clusterSize = s.iom.clusterSize := by simp [h1]
  have hb1 : s1.iom.blockAddr b = s.iom.blockAddr b := by rw [Iom.blockAddr, hcs1]; rfl
  rw [if_neg (by decide), wp_bind]
  refine wp_deleteBlockInbmap hm1 (hb.trans hb1.symm) (by omega) (fun hn => hu (fun hr => hn ⟨?_,?_⟩)) (fun s2 hblocks h2 => ?_)
  · rw [hcs1]
    exact hr.2.2.1
  · rw [h1]
    exact blockRoom_freeInode.mpr hr.2.1
  have hm2 : s2.iom.Mounted := h2 ▸ hm1.freeBlock
  rw [h1] at hblocks
  replace h := fun s' => h s' hinodes (blockRoom_freeInode.mp hblocks)
  rw [wp_bind]
  apply wp_malloc_cases
  intro c s3 h3 hc
  cases c with
  | false =>
    rw [if_pos (by decide), wp_undefined]
    exact hu (fun hr => hc rfl hr.2.2.2)
  | true =>
    rw [if_neg (by decide), wp_bind]
    apply wp_malloc_cases
    intro c s4 h4 hc
    cases c with
    | false =>
      rw [if_pos (by decide), wp_undefined]
      exact hu (fun hr => hc rfl hr.2.2.2)
    | true =>
      have hblk : ((s.iom.inode k).iBlocks 0).toNat = s.iom.blockAddr b := hb
      rw [if_neg (by decide), wp_bind, hblk]
      apply wp_pread_ok hio (Int.natCast_nonneg _) le_rfl
      intro s5 h5
      dsimp only
      rw [if_neg hm.clusterSize_ne_error, wp_bind]
      apply wp_pwrite_ok hio (Int.natCast_nonneg _)
      intro s6 h6
      rw [h5, h4, h3, Int.toNat_natCast] at h6
      have hm6 : s6.iom.Mounted := h6 ▸ hm2.writeDev
      have hn6 : s6.iom.inodeNum = s.iom.inodeNum := by
        rw [h6, h2]
        simp [Iom.inodeNum, hcs1]
      rw [if_neg hm.clusterSize_ne_error, wp_bind]
      apply wp_writeBackEntry hio hi hp
      intro s7 h7
      have hn7 : s7.iom.inodeNum = s.iom.inodeNum := by
        rw [h7, ← hn6]
        simp [Iom.inodeNum, Iom.writeEntry]
      rw [wp_bind]
      apply wp_bumpLink (by rw [hn7]; exact hpar)
      intro s8 h8
      rw [wp_bind]
      apply wp_updateMetadata hio (by rw [h8, h7]; exact hm6.writeEntry.addLink)
      intro s9 h9
      rw [wp_pure]
      refine h s9 ?_
      rw [h9, h8, h7, h6, h2, h1, Iom.removeDir, Iom.wipeBlock, ← h1, hb1, hcs1]

/-- `do_rmdir` changes nothing or takes an empty directory away. -/
theorem wp_doRmdir {Q : ℤ → Sys → Prop} (hio : e.IoOk) (hm : s.iom.Mounted) (hp : s.iom.Parent p)
    (hu : ¬(s.iom.Removable p name ∧ e.MallocOk ∧ ∀ i, 2 ≤ p.iIno.toNat →
      s.iom.scan (lookupTest name) p.iIno.toNat = some (true,i) → (s.iom.usedScan (s.iom.slotIno p i)).isSome) → u)
    (hrec : ∀ i, 2 ≤ p.iIno.toNat → s.iom.scan (lookupTest name) p.iIno.toNat = some (true,i) →
      2 ≤ s.iom.slotIno p i → s.iom.slotIno p i < s.iom.inodeNum →
      s.iom.RecordOk (s.iom.slotIno p i) ∧ (s.iom.inode (s.iom.slotIno p i)).iSize ≠ 0)
    (herr : ∀ s', s'.iom = s.iom → (e.MallocOk → p.iIno.toNat < 2) → Q lab4Error s')
    (hbad : ∀ s' i, 2 ≤ p.iIno.toNat → s.iom.scan (lookupTest name) p.iIno.toNat = some (true,i) →
      s.iom.slotIno p i < 2 ∨ ¬e.MallocOk → Q lab4Error s')
    (hnot : ∀ s' i, s'.iom = s.iom → 2 ≤ p.iIno.toNat → p.iIno.toNat < s.iom.inodeNum →
      s.iom.scan (lookupTest name) p.iIno.toNat = some (false,i) → Q (-enoent) s')
    (hused : ∀ s' i j, s'.iom = s.iom → s.iom.scan (lookupTest name) p.iIno.toNat = some (true,i) →
      s.iom.usedScan (s.iom.slotIno p i) = some (true,j) → Q (-enotempty) s')
    (hok : ∀ s' i k b j d, 2 ≤ p.iIno.toNat → p.iIno.toNat < s.iom.inodeNum →
      s.iom.scan (lookupTest name) p.iIno.toNat = some (true,i) → s.iom.slotIno p i = k → 2 ≤ k → k < s.iom.inodeNum →
      (s.iom.slotEntry p.iIno.toNat i).deleted = d → s.iom.usedScan k = some (false,j) →
      s.iom.dataAddr k = s.iom.blockAddr b → s.iom.InodeRoom 1 → s.iom.BlockRoom 1 →
      s'.iom = s.iom.removeDir k b (slotAddr p i) d p.iIno.toNat → Q lab4Success s') :
    wp u (doRmdir p name) Q e s := by
  have hR := fun i hlo hscan hk2 hkn => (hrec i hlo hscan hk2 hkn).1.owns (hrec i hlo hscan hk2 hkn).2
  have hcs := hm.cluster_le
  refine wp_doRmdir_checked hio hm hp (fun h2 hn => hu (fun hr => Nat.not_le.mpr (hr.1.parent h2) hn)) (fun hn => hu (fun hr => ?_))
    (fun i hlo hscan hn => hu (fun hr => Nat.not_le.mpr (hr.1.target i hlo hscan).1 hn)) (fun i hlo hscan hn => hu (fun hr => ?_))
    (fun i hlo hscan hk2 hkn => ?_) herr hbad hnot hused (fun s1 i j h1 hlo hhi hscan hk2 hkn hempty => ?_)
  · have hs := hr.1.scan
    rw [hn] at hs
    cases hs
  · have hs := hr.2.2 i hlo hscan
    rw [hn] at hs
    cases hs
  · obtain ⟨b,hb,hlt⟩ := hR i hlo hscan hk2 hkn
    omega
  · obtain ⟨b,hb,hlt⟩ := hR i hlo hscan hk2 hkn
    have hrow := hrec i hlo hscan hk2 hkn
    refine wp_removeEmptyDir hio h1 hm (scan_lt hm hscan) hp.addr hhi hrow.1.ino hkn hb hlt (fun hn => hu (fun hr => hn ?_))
      (fun s2 hinodes hblocks h2 => hok s2 i _ b j _ hlo hhi hscan rfl hk2 hkn rfl hempty hb hinodes hblocks h2)
    have hrel := (hr.1.target i hlo hscan).2
    exact ⟨hrel.inodes,hrel.blocks hrow.2,hrel.bitmap hrow.2 b hb,hr.2.1⟩

end SimpleFS
