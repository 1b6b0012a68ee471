import SimpleFS.Directory
import SimpleFS.Allocation
import SimpleFS.File

/-! # What creating a file or a directory does

Both operations take an inode, build its record, put an entry into a free slot of the parent and flush
what they changed; a directory also takes a block and counts a link on its parent.
-/
namespace SimpleFS
open Bytes Machine Prog

/-! ## Sizes and addresses of a parent -/

theorem Int64.toUInt64_toNat {x : Int64} (h : 0 ≤ x.toInt) : x.toUInt64.toNat = x.toInt.toNat := by
  rw [Int64.toNat_toUInt64_of_le (Int64.le_iff_toInt_le.mpr (by rwa [Int64.toInt_zero])), Int64.toNat_toInt]

/-- What the operations need of the record they get as the parent: its size fits the cluster buffer,
its block address fits an `int`, and so does the one of the record its number leads to. -/
structure Iom.Parent (m : Iom) (p : Inode) : Prop where
  nonneg : 0 ≤ p.iSize.toInt
  size : p.iSize.toInt ≤ m.clusterSize
  addr : (p.iBlocks 0).toNat < 2^31
  lookup : 2 ≤ p.iIno.toNat → p.iIno.toNat < m.inodeNum → m.dataAddr p.iIno.toNat < 2^31

/-- The slot loop for a free slot, over the part of the block that the size covers. -/
def Iom.freeScan (m : Iom) (p : Inode) : Option (Bool × ℕ) :=
  slotLoop freeTest p.iSize.toInt (splice zeros 0 p.iSize.toInt.toNat (m.dev.bytes.shift (p.iBlocks 0).toNat))
    (m.clusterSize / lab4DirEntrySize) 0

/-- Device address of slot `i` in the block of a record. -/
def slotAddr (p : Inode) (i : ℕ) : ℕ := (p.iBlocks 0).toNat + lab4DirEntrySize * i

/-! ## The new record and the new state -/

structure FileRecord (k : ℕ) (v : Inode) : Prop where
  ino : v.iIno = UInt32.ofNat k
  type : v.iType = lab4TypeFile
  size : v.iSize = 0
  links : v.iLinksCount = 1
  blocks : ∀ j, v.iBlocks j = 0

structure DirRecord (k addr : ℕ) (v : Inode) : Prop where
  ino : v.iIno = UInt32.ofNat k
  type : v.iType = lab4TypeDirectory
  size : v.iSize = 4096
  links : v.iLinksCount = 2
  block : v.iBlocks 0 = UInt32.ofNat addr
  blocks : ∀ j, j ≠ 0 → v.iBlocks j = 0

def Iom.createFile (m : Iom) (k : ℕ) (v : Inode) (a : ℕ) (d : DirEntry) : Iom :=
  ((((m.takeInode k).setInode k v).writeEntry a d).addFreeInodes (-1)).flushSb.flushIbmap.flushItble

def Iom.makeDir (m : Iom) (k b : ℕ) (v : Inode) (a : ℕ) (d : DirEntry) (par : UInt32) : Iom :=
  (((((((m.takeInode k).takeBlock b).setBlknr b).setInode k v).writeEntry a d).writeDev
    (m.blockAddr b) m.clusterSize (newDirArea (UInt32.ofNat k) par)).addLink (· + 1) par.toNat).flushAll

section Room
variable {m : Iom} {k b a : ℕ} {v : Inode} {d : DirEntry} {par : UInt32} {c : ℤ}

theorem inodeRoom_createFile (h : m.InodeRoom (-1)) (h' : m.InodeRoom (-2)) :
    (m.createFile k v a d).InodeRoom c ↔ m.InodeRoom (-2 + c) := by
  have htake : (((m.takeInode k).setInode k v).writeEntry a d).InodeRoom (-1) := (inodeRoom_takeInode h).mpr h'
  refine (inodeRoom_addFreeInodes htake).trans ((inodeRoom_takeInode h).trans ?_)
  rw [← Int.add_assoc]
  rfl

theorem blockRoom_createFile : (m.createFile k v a d).BlockRoom c ↔ m.BlockRoom c := by
  have htake : (((m.takeInode k).setInode k v).writeEntry a d).BlockRoom c ↔ (m.takeInode k).BlockRoom c := Iff.rfl
  have hadd : ((((m.takeInode k).setInode k v).writeEntry a d).addFreeInodes (-1)).BlockRoom c ↔ _ := blockRoom_addFreeInodes
  exact hadd.trans (htake.trans blockRoom_takeInode)

theorem inodeRoom_makeDir (h : m.InodeRoom (-1)) : (m.makeDir k b v a d par).InodeRoom c ↔ m.InodeRoom (-1 + c) :=
  (inodeRoom_setBlknr (m := (m.takeInode k).takeBlock b)).trans (inodeRoom_takeBlock.trans (inodeRoom_takeInode h))

theorem blockRoom_makeDir (h : m.BlockRoom (-1)) : (m.makeDir k b v a d par).BlockRoom c ↔ m.BlockRoom (-1 + c) :=
  (blockRoom_setBlknr (m := (m.takeInode k).takeBlock b)).trans
    ((blockRoom_takeBlock (blockRoom_takeInode.mpr h)).trans blockRoom_takeInode)

end Room

variable {e : Env} {s : Sys} {p : Inode} {name : List UInt8}

theorem UInt32.toNat_ofNat_index {m : Iom} {k : ℕ} (hm : m.Mounted) (hk : k < m.inodeNum) :
    (UInt32.ofNat k).toNat = k := by
  have := hm.inodeNum_le
  exact UInt32.toNat_ofNat_of_lt' (by rw [UInt32.size]; omega)

/-- A creation in `p` stays inside the buffers, finds an inode and overflows no counter. -/
structure Iom.Creatable (m : Iom) (p : Inode) (name : List UInt8) : Prop where
  parent : 2 ≤ p.iIno.toNat → p.iIno.toNat < m.inodeNum
  lookup : 2 ≤ p.iIno.toNat → (m.scan (lookupTest name) p.iIno.toNat).isSome
  inode : m.InodeReady
  slot : (m.freeScan p).isSome
  room : m.InodeRoom (-2)

/-- What a file creation that has taken inode `k` has found out about the state. -/
structure Iom.Creation (m : Iom) (p : Inode) (name : List UInt8) (k : ℕ) (v : Inode) (found : Bool) (i : ℕ) : Prop where
  pos : 1 ≤ name.length
  fits : name.length < fnameSize
  links : p.iLinksCount ≠ maxFilesPerDir
  ready : m.InodeReady
  lt : k < m.inodeNum
  clear : m.ibit k = false
  room : m.InodeRoom (-2)
  addr : (p.iBlocks 0).toNat < 2^31
  size : p.iSize.toUInt64.toNat ≤ m.clusterSize
  scan : slotLoop freeTest p.iSize.toInt (splice zeros 0 p.iSize.toUInt64.toNat (m.dev.bytes.shift (p.iBlocks 0).toNat))
    (m.clusterSize / lab4DirEntrySize) 0 = some (found,i)
  record : FileRecord k v

/-- A lookup before a creation: the name is there, or the lookup does not report success. -/
theorem wp_lab4Lookup_new {u : Prop} {D : UInt32} {Q : ℤ × DirEntry × ℤ → Sys → Prop} (hm : s.iom.Mounted)
    (hbig : 2 ≤ D.toNat → s.iom.inodeNum ≤ D.toNat → u) (hundef : 2 ≤ D.toNat → s.iom.scan (lookupTest name) D.toNat = none → u)
    (hfound : ∀ s' i d x, s'.iom = s.iom → 2 ≤ D.toNat → D.toNat < s.iom.inodeNum →
      s.iom.scan (lookupTest name) D.toNat = some (true,i) → Q (lab4Success,d,x) s')
    (hnot : ∀ s' res d x, s'.iom = s.iom → res ≠ lab4Success → (e.Nominal → s.iom.AddrAt D → 2 ≤ D.toNat →
      ∃ j, s.iom.scan (lookupTest name) D.toNat = some (false,j)) → Q (res,d,x) s') :
    wp u (lab4Lookup D DirEntry.zero name 0) Q e s := by
  refine wp_lab4Lookup_ticks hm (fun hlow => ?_) (fun s' h hn => ?_) (fun s' h _ hlo hhi hf => ?_) hbig
    (fun hlo _ => hundef hlo) (fun s' i h _ _ _ hlo hhi hscan => ?_) (fun s' i h _ _ _ _ _ hscan => ?_)
  · exact hnot s _ _ _ rfl (by decide) (fun _ _ hlo => absurd hlow (Nat.not_lt.mpr hlo))
  · exact hnot s' _ _ _ h (by decide) (fun he => absurd he.malloc hn)
  · refine hnot s' _ _ _ h (by decide) (fun he ha _ => ?_)
    have ha := ha hlo hhi
    rw [he.io] at hf
    rcases hf with hf | hf
    · cases hf
    · omega
  · exact hfound s' i _ _ h hlo hhi hscan
  · exact hnot s' _ _ _ h (by decide) (fun _ _ _ => ⟨i,hscan⟩)

/-- `lab4_createfile` either refuses and changes nothing, or creates. A run without the pointer it should
set returns no inode at all. -/
theorem wp_lab4Createfile_any {u : Prop} {mode : ℕ} {Q : ℤ × Option Inode → Sys → Prop} (hm : s.iom.Mounted)
    (hu : ¬(e.Nominal ∧ s.iom.Parent p ∧ s.iom.Creatable p name) → u)
    (hlong : ∀ s', s'.iom = s.iom → name.length < 1 ∨ fnameSize ≤ name.length → Q (-enametoolong,none) s')
    (hexist : ∀ s' i, s'.iom = s.iom → 2 ≤ p.iIno.toNat → p.iIno.toNat < s.iom.inodeNum →
      s.iom.scan (lookupTest name) p.iIno.toNat = some (true,i) → Q (-eexist,none) s')
    (hmax : ∀ s', s'.iom = s.iom → p.iLinksCount = maxFilesPerDir → (e.Nominal → s.iom.AddrAt p.iIno → 2 ≤ p.iIno.toNat →
      ∃ j, s.iom.scan (lookupTest name) p.iIno.toNat = some (false,j)) → Q (lab4Error,none) s')
    (hstop : ∀ s', ¬(e.Nominal ∧ (p.iBlocks 0).toNat < 2^31) → Q (lab4Success,none) s')
    (hok : ∀ s' k v found i, s.iom.Creation p name k v found i → (e.Nominal → s.iom.AddrAt p.iIno → 2 ≤ p.iIno.toNat →
        ∃ j, s.iom.scan (lookupTest name) p.iIno.toNat = some (false,j)) →
      s'.iom.sbi.fileTable = s.iom.sbi.fileTable →
      (e.IoOk → s'.iom = s.iom.createFile k v (slotAddr p i) (DirEntry.used (UInt32.ofNat k) 1 name)) →
      Q (lab4Success,some v) s') :
    wp u (lab4Createfile p name mode) Q e s := by
  unfold lab4Createfile
  rw [wp_ite, wp_pure]
  refine ⟨hlong s rfl,fun hlen => ?_⟩
  rw [not_or, Nat.not_lt, Nat.not_le] at hlen
  rw [wp_bind]
  refine wp_lab4Lookup_new hm (fun hlo hhi => hu (fun hc => absurd (hc.2.2.parent hlo) (Nat.not_lt.mpr hhi)))
    (fun hlo hn => hu (fun hc => ?_)) ?_ ?_
  · have hs := hc.2.2.lookup hlo
    rw [hn] at hs
    cases hs
  · intro s1 i d x h1 hlo hhi hscan
    dsimp only
    rw [if_pos rfl, wp_pure]
    exact hexist s1 i h1 hlo hhi hscan
  intro s1 res d x h1 hres hnew
  dsimp only
  rw [if_neg hres, wp_ite, wp_pure]
  refine ⟨fun hl => hmax s1 h1 hl hnew,fun hlinks => ?_⟩
  rw [wp_bind]
  refine wp_allocNewInode (h1 ▸ hm) (fun hn => hu (fun hc => hn ⟨hc.1.malloc,h1 ▸ hc.2.2.inode⟩)) ?_ ?_
  · intro s2 hn h2
    rw [wp_bind]
    exact wp_restoreIbmap_none (hu (fun hc => hn (h1 ▸ hc.2.2.inode))) h2
  intro s2 k hready h2 hk hbit
  rw [h1] at hready h2 hk hbit
  simp only [wp_bind, wp_getgid, wp_getuid, wp_timeNull]
  apply wp_malloc_cases
  intro b s3 h3 hb
  replace h3 : s3.iom = s.iom.takeInode k := h3.trans h2
  cases b with
  | false =>
    simp only [Bool.not_false, ↓reduceIte, wp_pure]
    exact hstop s3 (fun he => hb rfl he.1.malloc)
  | true =>
    simp only [Bool.not_true, Bool.false_eq_true, ↓reduceIte, wp_bind]
    apply wp_malloc_cases
    intro b s4 h4 hb
    rw [h3] at h4
    cases b with
    | false =>
      simp only [Bool.not_false, ↓reduceIte, wp_pure]
      exact hstop s4 (fun he => hb rfl he.1.malloc)
    | true =>
      simp only [Bool.not_true, Bool.false_eq_true, ↓reduceIte, wp_bind, wp_getIom, h4]
      have hcs : (s.iom.takeInode k).sbi.clusterSize = s.iom.clusterSize := hm.sbiCluster
      have hle := hm.cluster_le
      have hm' : (s.iom.takeInode k).Mounted := hm.takeInode
      rw [hcs, wp_pread]
      refine ⟨fun hf => ?_,fun hf => ⟨fun hbig => hu (fun hc => ?_),fun hsize => ?_⟩⟩
      · rw [if_pos rfl, wp_pure]
        refine hstop _ (fun he => ?_)
        rw [Inode.blocknr_eq he.2, he.1.io] at hf
        rcases hf with hf | hf
        · omega
        · cases hf
      · have := hc.2.1.size
        have := hc.2.1.nonneg
        rw [Int64.toUInt64_toNat hc.2.1.nonneg] at hbig
        omega
      rw [not_or] at hf
      have haddr : (p.iBlocks 0).toNat < 2^31 := by
        by_contra ha
        exact hf.1 (toS32_neg (Nat.not_lt.mp ha) (UInt32.toNat_lt _))
      have ha : p.blocknr = ((p.iBlocks 0).toNat : ℕ) := Inode.blocknr_eq haddr
      rw [ha, if_neg (toS32_ne_error (by omega)), wp_bind, wp_lift, h4, Int.toNat_natCast, Iom.takeInode_dev]
      refine ⟨fun hn => hu (fun hc => ?_),?_⟩
      · have hs : (s.iom.freeScan p).isSome := hc.2.2.slot
        rw [Int64.toUInt64_toNat hc.2.1.nonneg] at hn
        rw [show s.iom.freeScan p = none from hn] at hs
        cases hs
      rintro ⟨found,i⟩ hscan
      rw [wp_bind]
      have hk' := UInt32.toNat_ofNat_index hm hk
      have h5 : s4.next.iom = s.iom.takeInode k := h4
      apply wp_writeInodeToItble (h5 ▸ hm') (by rw [h5, hk']; exact hk)
      intro s6 h6
      rw [h5, hk'] at h6
      rw [if_neg (by decide)]
      simp only [wp_bind]
      apply wp_pwrite_any
      intro _ s7 h7 hok7
      rw [h6] at h7 hok7
      have hfree7 : s7.iom.InodeRoom (-1) ↔ (s.iom.takeInode k).InodeRoom (-1) := by
        obtain ⟨x,hx⟩ := h7
        rw [hx]
        exact Iff.rfl
      refine wp_bumpFreeInodes (fun hn => hu (fun hc => hn ?_)) (fun s8 hroom8 h8 => ?_)
      · exact hfree7.mpr ((inodeRoom_takeInode hready.room).mpr hc.2.2.room)
      have hm8 : s8.iom.Mounted := h8 ▸ (h7.mounted hm'.setInode).addFreeInodes
      apply wp_updateSb_any
      intro _ s9 h9 hok9
      apply wp_updateIbmap_any (h9.mounted hm8)
      intro _ s10 h10 hok10
      apply wp_updateItble_any
      intro _ s11 h11 hok11
      rw [wp_pure]
      have hft7 : s7.iom.sbi.fileTable = s.iom.sbi.fileTable :=
        (h7.congr (f := fun m => m.sbi.fileTable) (fun _ _ => rfl)).trans rfl
      have hft : s8.iom.sbi.fileTable = s.iom.sbi.fileTable := (congrArg (fun m => m.sbi.fileTable) h8).trans hft7
      refine hok s11 k _ found i ⟨hlen.1,hlen.2,hlinks,hready,hk,hbit,(inodeRoom_takeInode hready.room).mp (hfree7.mp hroom8),haddr,
        Nat.not_lt.mp hsize,hscan,⟨rfl,rfl,rfl,rfl,fun _ => rfl⟩⟩ (fun he ha => hnew he (h1 ▸ ha)) ?_ (fun hio => ?_)
      · exact ((h9.trans (h10.trans h11)).congr (f := fun m => m.sbi.fileTable) (fun _ _ => rfl)).trans hft
      · rw [hok11 hio, hok10 hio, hok9 hio, h8, (hok7 hio (by omega)).2]
        rfl

/-- The same where transfers succeed. -/
theorem wp_lab4Createfile {u : Prop} {mode : ℕ} {Q : ℤ × Option Inode → Sys → Prop} (hio : e.IoOk) (hm : s.iom.Mounted)
    (hp : s.iom.Parent p) (hu : ¬(e.MallocOk ∧ s.iom.Creatable p name) → u)
    (hlong : ∀ s', s'.iom = s.iom → name.length < 1 ∨ fnameSize ≤ name.length → Q (-enametoolong,none) s')
    (hexist : ∀ s' i, s'.iom = s.iom → 2 ≤ p.iIno.toNat → p.iIno.toNat < s.iom.inodeNum →
      s.iom.scan (lookupTest name) p.iIno.toNat = some (true,i) → Q (-eexist,none) s')
    (hmax : ∀ s', s'.iom = s.iom → p.iLinksCount = maxFilesPerDir →
      (e.MallocOk → 2 ≤ p.iIno.toNat → ∃ j, s.iom.scan (lookupTest name) p.iIno.toNat = some (false,j)) →
      Q (lab4Error,none) s')
    (hbad : ∀ s', ¬e.MallocOk → Q (lab4Success,none) s')
    (hok : ∀ s' k v found i, 1 ≤ name.length → name.length < fnameSize →
      (e.MallocOk → 2 ≤ p.iIno.toNat → ∃ j, s.iom.scan (lookupTest name) p.iIno.toNat = some (false,j)) →
      k < s.iom.inodeNum → s.iom.ibit k = false → s.iom.InodeRoom (-1) → s.iom.InodeRoom (-2) → FileRecord k v →
      s.iom.freeScan p = some (found,i) →
      s'.iom = s.iom.createFile k v (slotAddr p i) (DirEntry.used (UInt32.ofNat k) 1 name) →
      Q (lab4Success,some v) s') :
    wp u (lab4Createfile p name mode) Q e s := by
  refine wp_lab4Createfile_any hm (fun hn => hu (fun hc => hn ⟨⟨hio,hc.1⟩,hp,hc.2⟩)) hlong hexist
    (fun s' h hl hnew => hmax s' h hl (fun hmal => hnew ⟨hio,hmal⟩ hp.lookup))
    (fun s' hn => hbad s' (fun hmal => hn ⟨⟨hio,hmal⟩,hp.addr⟩)) (fun s' k v found i hc hnew _ hdone => ?_)
  have hscan := hc.scan
  rw [Int64.toUInt64_toNat hp.nonneg] at hscan
  exact hok s' k v found i hc.pos hc.fits (fun hmal => hnew ⟨hio,hmal⟩ hp.lookup) hc.lt hc.clear hc.ready.room hc.room hc.record
    hscan (hdone hio)

theorem takeInode_maxBlock (m : Iom) (k : ℕ) : (m.takeInode k).maxBlock = m.maxBlock := (rfl)
theorem takeInode_dbit (m : Iom) (k b : ℕ) : (m.takeInode k).dbit b = m.dbit b := (rfl)

theorem Int64.ofNat_slots : Int64.ofNat (lab4DirEntrySize * lab4DirEntryNum) = 4096 := by decide

/-- What a new directory needs so that nothing goes wrong on the way. -/
structure Iom.Makeable (m : Iom) (p : Inode) (name : List UInt8) : Prop where
  parent : p.iIno.toNat < m.inodeNum
  lookup : 2 ≤ p.iIno.toNat → (m.scan (lookupTest name) p.iIno.toNat).isSome
  inode : m.InodeReady
  block : m.BlockReady
  fits : name.length < fnameSize
  slot : (m.freeScan p).isSome

/-- `do_mkdir` either refuses and changes nothing, or makes the directory. -/
theorem wp_doMkdir_any {u : Prop} {Q : ℤ → Sys → Prop} (hio : e.IoOk) (hm : s.iom.Mounted) (hp : s.iom.Parent p)
    (hu : (2 ≤ p.iIno.toNat → p.iIno.toNat < s.iom.inodeNum → e.MallocOk →
      ∀ i, s.iom.scan (lookupTest name) p.iIno.toNat ≠ some (true,i)) → ¬(e.MallocOk ∧ s.iom.Makeable p name) → u)
    (hexist : ∀ s' i, s'.iom = s.iom → 2 ≤ p.iIno.toNat → p.iIno.toNat < s.iom.inodeNum →
      s.iom.scan (lookupTest name) p.iIno.toNat = some (true,i) → Q (-eexist) s')
    (hbad : ∀ s', ¬e.MallocOk → Q lab4Error s')
    (hok : ∀ s' k b v found i, name.length < fnameSize →
      (e.MallocOk → 2 ≤ p.iIno.toNat → ∃ j, s.iom.scan (lookupTest name) p.iIno.toNat = some (false,j)) →
      k < s.iom.inodeNum → s.iom.ibit k = false → s.iom.InodeRoom (-1) → b < s.iom.maxBlock → s.iom.dbit b = false →
      s.iom.BlockRoom (-1) →
      (s.iom.sbi.lastAllocatedBlknr < s.iom.maxBlock →
        ∀ q, s.iom.sbi.lastAllocatedBlknr ≤ q → q < b → s.iom.dbit q = true) →
      DirRecord k (s.iom.blockAddr b) v → s.iom.freeScan p = some (found,i) → p.iIno.toNat < s.iom.inodeNum →
      s'.iom = s.iom.makeDir k b v (slotAddr p i) (DirEntry.used (UInt32.ofNat k) 0 name) p.iIno →
      Q lab4Success s') :
    wp u (doMkdir p name) Q e s := by
  unfold doMkdir
  rw [wp_bind]
  refine wp_lab4Lookup_new hm (fun _ hhi => hu (fun _ hlt => absurd hlt (Nat.not_lt.mpr hhi))
    (fun hc => absurd hc.2.parent (Nat.not_lt.mpr hhi))) (fun hlo hn => hu (fun _ _ _ i hi => ?_) (fun hc => ?_)) ?_ ?_
  · cases hi.symm.trans hn
  · have hs := hc.2.lookup hlo
    rw [hn] at hs
    cases hs
  · intro s1 i d x h1 hlo hhi hscan
    dsimp only
    rw [if_pos rfl, wp_pure]
    exact hexist s1 i h1 hlo hhi hscan
  intro s1 res d x h1 hres hnew
  replace hnew := fun hmal => hnew ⟨hio,hmal⟩ hp.lookup
  replace hu := hu (fun hlo _ hmal i hi => by
    obtain ⟨j,hj⟩ := hnew hmal hlo
    cases hi.symm.trans hj)
  dsimp only
  rw [if_neg hres, wp_bind]
  refine wp_allocNewInode (h1 ▸ hm) (fun hn => hu (fun hc => hn ⟨hc.1,h1 ▸ hc.2.inode⟩)) ?_ ?_
  · intro s2 hn h2
    rw [wp_bind]
    exact wp_restoreIbmap_none (hu (fun hc => hn (h1 ▸ hc.2.inode))) h2
  intro s2 k hready h2 hk hbit
  rw [h1] at hready h2 hk hbit
  have hroom := hready.room
  have hm2 : s2.iom.Mounted := h2 ▸ hm.takeInode
  -- the inode that is taken leaves the blocks alone
  have hlost : ¬s2.iom.BlockReady → u := fun hn => hu (fun hc => hn (h2 ▸ ⟨hc.2.block.scan,blockRoom_takeInode.mpr hc.2.block.room⟩))
  rw [wp_bind]
  refine wp_allocBlockInbmap_any hm2 hlost ?_ ?_
  · intro s3 b hn h3
    dsimp only
    rw [if_pos rfl, wp_bind]
    exact wp_restoreDbmap_none (hlost hn) h3
  intro s3 b hblocks h3 hb hdbit hfirst
  rw [h2] at hblocks h3 hb hdbit hfirst
  rw [takeInode_maxBlock] at hb hfirst
  rw [takeInode_dbit] at hdbit
  dsimp only
  rw [if_neg (by decide), wp_bind]
  apply wp_malloc_cases
  intro c s4 h4 hc
  rw [h3] at h4
  cases c with
  | false =>
    simp only [Bool.not_false, ↓reduceIte, wp_pure]
    exact hbad s4 (hc rfl)
  | true =>
    rw [if_neg (by decide), wp_bind]
    apply wp_modifyIom_any
    intro s5 h5
    replace h5 : s5.iom = ((s.iom.takeInode k).takeBlock b).setBlknr b := h4 ▸ h5
    have hm5 : s5.iom.Mounted := h5 ▸ hm.takeInode.takeBlock.setBlknr
    have hcs5 : s5.iom.clusterSize = s.iom.clusterSize := by simp [h5]
    have hdev5 : s5.iom.dev = s.iom.dev := by simp [h5]
    have hn5 : s5.iom.inodeNum = s.iom.inodeNum := by simp [Iom.inodeNum, hcs5]
    rw [wp_bind, wp_getIom, wp_bind, wp_getgid, wp_bind, wp_getuid, wp_bind]
    apply wp_timeNull_any
    intro t1 s6 h6
    rw [wp_bind]
    apply wp_timeNull_any
    intro t2 s7 h7
    rw [wp_bind]
    apply wp_timeNull_any
    intro t3 s8 h8
    rw [wp_bind]
    apply wp_malloc_cases
    intro c s9 h9 hc
    cases c with
    | false =>
      rw [if_pos (by decide), wp_pure]
      exact hbad s9 (hc rfl)
    | true =>
      rw [if_neg (by decide), wp_ite, wp_undefined]
      refine ⟨fun hlong => hu (fun hc => absurd hc.2.fits (Nat.not_lt.mpr hlong)),fun hlen => ?_⟩
      rw [Nat.not_le] at hlen
      rw [wp_bind]
      apply wp_malloc_cases
      intro c s10 h10 hc
      cases c with
      | false =>
        rw [if_pos (by decide), wp_pure]
        exact hbad s10 (hc rfl)
      | true =>
        rw [if_neg (by decide), wp_bind]
        have haddr : p.blocknr = ((p.iBlocks 0).toNat : ℕ) := Inode.blocknr_eq hp.addr
        have hblock : s5.iom.blockAddr b = s.iom.blockAddr b := by rw [Iom.blockAddr, Iom.blockAddr, hcs5]
        have hle := hm.cluster_le
        have hps := hp.size
        replace h10 : s10.iom = s5.iom := by rw [h10, h9, h8, h7, h6]
        rw [haddr, Int64.toUInt64_toNat hp.nonneg, hm5.mkdirAddr_eq, hblock, hm5.sbiCluster, hm5.dareaStart, hcs5]
        apply wp_pread_ok hio (Int.natCast_nonneg _) (by omega)
        intro s11 h11
        rw [h10] at h11
        rw [h10, hdev5, if_neg (toS32_ne_error (by omega)), wp_bind, wp_lift]
        refine ⟨fun hn => hu (fun hc => ?_),?_⟩
        · have hs := hc.2.slot
          rw [show s.iom.freeScan p = none from hn] at hs
          cases hs
        rintro ⟨found,i⟩ hscan
        rw [wp_bind]
        have hk' := UInt32.toNat_ofNat_index hm hk
        apply wp_writeInodeToItble (h11 ▸ hm5) (by rw [h11, hk', hn5]; exact hk)
        intro s12 h12
        rw [h11, hk'] at h12
        rw [if_neg (by decide), wp_bind]
        apply wp_pwrite_ok hio (by omega)
        intro s13 h13
        rw [wp_bind]
        apply wp_pwrite_ok hio (Int.natCast_nonneg _)
        intro s14 h14
        rw [h13, h12] at h14
        have hn14 : s14.iom.inodeNum = s.iom.inodeNum := by rw [h14]; simp [Iom.inodeNum, hcs5]
        have hm14 : s14.iom.Mounted := h14 ▸ hm5.setInode.writeDev.writeDev
        rw [wp_bind]
        refine wp_bumpLink_any (fun hn => hu (fun hc => hn (hn14 ▸ hc.2.parent))) (fun s15 hpn h15 => ?_)
        rw [hn14] at hpn
        rw [wp_bind]
        apply wp_updateMetadata hio (h15 ▸ hm14.addLink)
        intro s16 h16
        rw [wp_pure]
        rw [h15, h14, h5] at h16
        refine hok s16 k b _ found i hlen hnew hk hbit hroom hb hdbit (blockRoom_takeInode.mp hblocks) hfirst
          ⟨rfl,rfl,Int64.ofNat_slots,rfl,?_,fun j hj => Function.update_of_ne hj _ _⟩ hscan hpn h16
        rw [Iom.blockAddr, Nat.add_comm (b * s.iom.clusterSize)]
        simp only [Function.update_self]

theorem wp_doMkdir {Q : ℤ → Sys → Prop} (hio : e.IoOk) (hm : s.iom.Mounted) (hp : s.iom.Parent p)
    (hexist : ∀ s' i, s'.iom = s.iom → 2 ≤ p.iIno.toNat → p.iIno.toNat < s.iom.inodeNum →
      s.iom.scan (lookupTest name) p.iIno.toNat = some (true,i) → Q (-eexist) s')
    (hbad : ∀ s', ¬e.MallocOk → Q lab4Error s')
    (hok : ∀ s' k b v found i, name.length < fnameSize →
      (e.MallocOk → 2 ≤ p.iIno.toNat → ∃ j, s.iom.scan (lookupTest name) p.iIno.toNat = some (false,j)) →
      k < s.iom.inodeNum → s.iom.ibit k = false → s.iom.InodeRoom (-1) → b < s.iom.maxBlock → s.iom.dbit b = false →
      s.iom.BlockRoom (-1) →
      (s.iom.sbi.lastAllocatedBlknr < s.iom.maxBlock →
        ∀ q, s.iom.sbi.lastAllocatedBlknr ≤ q → q < b → s.iom.dbit q = true) →
      DirRecord k (s.iom.blockAddr b) v → s.iom.freeScan p = some (found,i) → p.iIno.toNat < s.iom.inodeNum →
      s'.iom = s.iom.makeDir k b v (slotAddr p i) (DirEntry.used (UInt32.ofNat k) 0 name) p.iIno →
      Q lab4Success s') :
    wp True (doMkdir p name) Q e s := wp_doMkdir_any hio hm hp (fun _ _ => trivial) hexist hbad hok

end SimpleFS
