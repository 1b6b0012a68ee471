import SimpleFS.FirstFit
import SimpleFS.Reading

/-! # The steps of `do_write`, whatever the device does

`do_write` finds its block, does its rounds there and stores the record. Each step has one rule, in which
transfers and allocations may fail.
-/
namespace SimpleFS
open Bytes Machine Prog

variable {u : Prop} {e : Env} {s : Sys} {m m' m'' : Iom} {S T : Set ℕ} {fid offset size a n : ℕ} {buf data : Mem} {v x : Inode}

/-! ## Changes of a part of the device -/

/-- At most bytes of the device with an address in `S` differ. -/
structure Iom.Within (S : Set ℕ) (m m' : Iom) : Prop where
  onDev : m.OnDev m'
  bytes : ∀ i, i ∉ S → m'.dev.bytes i = m.dev.bytes i

/-- The clusters of super block, data bitmap and inode table. -/
def Iom.metadata (m : Iom) : Set ℕ := fun i => i < m.clusterSize ∨ 2 * m.clusterSize ≤ i ∧ i < 4 * m.clusterSize

namespace Iom.Within

theorem refl (S : Set ℕ) (m : Iom) : Within S m m := ⟨.refl m,fun _ _ => rfl⟩

theorem trans (h : Within S m m') (h' : Within S m' m'') : Within S m m'' :=
  ⟨h.onDev.trans h'.onDev,fun i hi => (h'.bytes i hi).trans (h.bytes i hi)⟩

theorem mono (h : Within S m m') (hT : ∀ i, i ∈ S → i ∈ T) : Within T m m' :=
  ⟨h.onDev,fun i hi => h.bytes i (fun hs => hi (hT i hs))⟩

theorem writeDev (h : ∀ i, a ≤ i → i < a + n → i ∈ S) : Within S m (m.writeDev a n data) := by
  refine ⟨.writeDev m a n data,fun i hi => ?_⟩
  have hout : i < a ∨ a + n ≤ i := by
    by_contra hin
    push Not at hin
    exact hi (h i hin.1 hin.2)
  exact splice_outside hout

end Iom.Within

theorem wp_flushCluster_within {start : ℕ} {Q : ℤ → Sys → Prop} (hm : s.iom.Mounted)
    (hS : ∀ i, start ≤ i → i < start + s.iom.clusterSize → i ∈ S)
    (h : ∀ r s', s.iom.Within S s'.iom → Q r s') : wp u (flushCluster (some data) start) Q e s := by
  have hkeep : ∀ r s', s.iom.Within S s'.iom → wp u (if r = lab4Error then pure lab4Error else pure lab4Success) Q e s' := by
    intro r s' hs'
    rw [wp_ite, wp_pure, wp_pure]
    exact ⟨fun _ => h _ s' hs',fun _ => h _ s' hs'⟩
  simp only [flushCluster, wp_bind, wp_getIom]
  rw [wp_pwrite, hm.sbiCluster, Int.toNat_natCast]
  exact ⟨fun _ => hkeep _ _ (.refl S _),fun _ => hkeep _ _ (.writeDev hS)⟩

/-! ## Storing the record -/

/-- The record is in the table, and of the device at most the metadata differ. -/
def Iom.StoresRecord (m : Iom) (v : Inode) (m' : Iom) : Prop := (m.setInode v.iIno.toNat v).Within m.metadata m'

namespace Iom.StoresRecord
variable (h : m.StoresRecord v m')
include h

theorem inode (l : ℕ) : m'.inode l = Function.update m.inode v.iIno.toNat v l := by
  have hmem : m'.inode l = (m.setInode v.iIno.toNat v).inode l := h.onDev.congr (f := fun m => m.inode l) fun _ _ => rfl
  rw [hmem, inode_setInode]

theorem dbit : m'.dbit = m.dbit := by
  have hmem : m'.dbit = (m.setInode v.iIno.toNat v).dbit := h.onDev.congr (f := Iom.dbit) fun _ _ => rfl
  rw [hmem]
  rfl

theorem bytes {i : ℕ} (hi : i ∉ m.metadata) : m'.dev.bytes i = m.dev.bytes i := by
  have hb := Within.bytes h i hi
  rwa [Iom.setInode_dev] at hb

end Iom.StoresRecord

/-- An address behind the metadata clusters. -/
theorem not_mem_metadata {i : ℕ} (hi : 4 * m.clusterSize ≤ i) : i ∉ m.metadata := by
  rintro (h | h) <;> omega

/-- The end of `do_write`. A flush that fails goes unnoticed. -/
theorem wp_storeRecord {w : ℤ} {Q : ℤ → Sys → Prop} (hm : s.iom.Mounted) (hv : v.iIno.toNat < s.iom.inodeNum)
    (h : ∀ s', s.iom.StoresRecord v s'.iom → Q w s') : wp u (do
      let res ← writeInodeToItble v
      if res = lab4Error then return lab4Error
      let _ ← updateSb
      let _ ← updateItble
      let _ ← updateDbmap
      return w) Q e s := by
  rw [wp_bind]
  refine wp_writeInodeToItble hm hv (fun s1 h1 => ?_)
  have hcs : s1.iom.clusterSize = s.iom.clusterSize := by rw [h1, Iom.setInode_clusterSize]
  have hm1 : s1.iom.Mounted := h1 ▸ hm.setInode
  have hset : s.iom.metadata = s1.iom.metadata := by
    unfold Iom.metadata
    rw [hcs]
  rw [if_neg (by decide), wp_bind]
  simp only [updateSb, wp_bind, wp_getIom]
  refine wp_flushCluster_within (S := s1.iom.metadata) hm1 (fun i _ hi => .inl ?_) (fun _ s2 h2 => ?_)
  · rw [hm1.sbStart, Nat.zero_add] at hi
    exact hi
  have hm2 : s2.iom.Mounted := h2.onDev.mounted hm1
  have hcs2 : s2.iom.clusterSize = s1.iom.clusterSize := h2.onDev.congr fun _ _ => rfl
  simp only [updateItble, wp_bind, wp_getIom]
  refine wp_flushCluster_within (S := s1.iom.metadata) hm2 (fun i hlo hi => .inr ?_) (fun _ s3 h3 => ?_)
  · rw [hm2.itableStart, hcs2] at hlo hi
    omega
  have hm3 : s3.iom.Mounted := h3.onDev.mounted hm2
  have hcs3 : s3.iom.clusterSize = s1.iom.clusterSize := (h3.onDev.congr fun _ _ => rfl).trans hcs2
  simp only [updateDbmap, wp_bind, wp_getIom, hm3.dbmap_eq]
  refine wp_flushCluster_within (S := s1.iom.metadata) hm3 (fun i hlo hi => .inr ?_) (fun _ s4 h4 => ?_)
  · rw [hm3.dbitmapStart, hcs3] at hlo hi
    omega
  rw [wp_pure]
  refine h s4 ?_
  rw [Iom.StoresRecord, hset, ← h1]
  exact (h2.trans h3).trans h4

/-- The rest of `do_write` is its loop and, if no round fails, the end. -/
theorem wp_writeBlock_loop {blocknr : ℤ} {Q : ℤ → Sys → Prop}
    (h : wp u (whileLoop writeDone (writeRound fid buf offset (blocknr + offset)) e.fuel ⟨size,v,e.indet s.clock⟩)
      (fun r s' => (r = none → Q lab4Error s') ∧ ∀ x w, r = some (x,w) → s'.iom.Mounted ∧
        x.iIno.toNat < s'.iom.inodeNum ∧ ∀ t, s'.iom.StoresRecord x t.iom → Q w t) e s.next) :
    wp u (writeBlock fid buf size offset v blocknr) Q e s := by
  have hloop : writeLoop fid buf offset (blocknr + offset) e.fuel size v (e.indet s.clock) =
      whileLoop writeDone (writeRound fid buf offset (blocknr + offset)) e.fuel ⟨size,v,e.indet s.clock⟩ :=
    writeLoop_eq e.fuel ⟨size,v,e.indet s.clock⟩
  unfold writeBlock
  rw [wp_bind, wp_env, wp_bind, wp_indeterminate, wp_bind, hloop]
  refine h.mono (fun r s1 hr => ?_)
  cases r with
  | none =>
    dsimp only
    rw [wp_pure]
    exact hr.1 rfl
  | some p =>
    obtain ⟨hm,hx,hQ⟩ := hr.2 p.1 p.2 rfl
    exact wp_storeRecord hm hx hQ

/-! ## Finding the block -/

/-- Handle `fid` is open on the live file with record `v`, and its data lies behind the metadata. -/
structure Iom.FileOpen (m : Iom) (fid : ℕ) (v : Inode) : Prop extends m.OpenOn fid v where
  used : (m.sbi.fileTable fid).used = true
  live : m.ibit (m.sbi.fileTable fid).ino.toNat = true
  type : v.iType = lab4TypeFile
  self : v.iIno = (m.sbi.fileTable fid).ino
  data : v.iSize ≠ 0 → 4 * m.clusterSize ≤ (v.iBlocks 0).toNat
  sizeLo : -2^63 ≤ (m.sbi.fileTable fid).size
  sizeHi : (m.sbi.fileTable fid).size < 2^63

/-- The scan finds block `b` free, and it can be counted. -/
structure Iom.Takes (m : Iom) (b : ℕ) : Prop where
  scan : m.blockScan = some (true,b)
  lt : b < m.maxBlock
  room : m.BlockRoom (-1)

theorem Iom.Takes.unique {b b' : ℕ} (h : m.Takes b) (h' : m.Takes b') : b = b' := by
  cases h.scan.symm.trans h'.scan
  rfl

theorem Iom.Takes.clear {b : ℕ} (h : m.Takes b) : m.dbit b = false := bitScan_found h.scan

/-- The block a write goes to: the one the record names, or for an empty file one that is taken for it. -/
inductive Iom.WriteTarget (m : Iom) (v : Inode) : Iom → Inode → ℕ → Prop
  | own (h : v.iSize ≠ 0) : WriteTarget m v m v (v.iBlocks 0).toNat
  | taken (b : ℕ) (h : v.iSize = 0) (hb : m.Takes b) : WriteTarget m v (m.takeBlock b)
      { v with iBlocks := Function.update v.iBlocks 0 (UInt32.ofNat (m.blockAddr b)) } (m.blockAddr b)

namespace Iom.WriteTarget
variable (h : m.WriteTarget v m' x a)
include h

theorem mounted (hm : m.Mounted) : m'.Mounted := by
  cases h with
  | own _ => exact hm
  | taken _ _ _ => exact hm.takeBlock

theorem clusterSize : m'.clusterSize = m.clusterSize := by
  cases h with
  | own _ => rfl
  | taken _ _ _ => exact Iom.takeBlock_clusterSize ..

theorem dev : m'.dev = m.dev := by
  cases h with
  | own _ => rfl
  | taken _ _ _ => exact Iom.takeBlock_dev ..

theorem fileTable : m'.sbi.fileTable = m.sbi.fileTable := by
  cases h <;> rfl

theorem iIno : x.iIno = v.iIno := by
  cases h <;> rfl

theorem iSize : x.iSize = v.iSize := by
  cases h <;> rfl

theorem inodes : m'.inode = m.inode := by
  cases h <;> rfl

theorem behind (hd : v.iSize ≠ 0 → 4 * m.clusterSize ≤ (v.iBlocks 0).toNat) : 4 * m.clusterSize ≤ a := by
  cases h with
  | own hz => exact hd hz
  | taken b _ _ => exact Nat.le_add_left _ _

/-- A file with data is written where it is. -/
theorem of_size (hz : v.iSize ≠ 0) : m' = m ∧ x = v ∧ a = (v.iBlocks 0).toNat := by
  cases h with
  | own _ => exact ⟨rfl,rfl,rfl⟩
  | taken _ h0 _ => exact absurd h0 hz

theorem unique {m2 : Iom} {y : Inode} {a' : ℕ} (h' : m.WriteTarget v m2 y a') : a = a' := by
  cases h with
  | own hz => exact (h'.of_size hz).2.2.symm
  | taken b hz hb =>
    cases h' with
    | own hn => exact absurd hz hn
    | taken b' _ hb' => rw [hb.unique hb']

/-- An empty file gets a block that was free. -/
theorem takes (hz : v.iSize = 0) : ∃ b, m.Takes b := by
  cases h with
  | own hn => exact absurd hz hn
  | taken b _ hb => exact ⟨b,hb⟩

end Iom.WriteTarget

section Seek
variable {y : Inode} (ht : (m.seekFile fid offset).WriteTarget v m' y a)
include ht

/-- The loop starts at the file position. -/
theorem rwoffset_target : (m'.sbi.fileTable fid).rwoffset = offset := by
  rw [ht.fileTable, Iom.seekFile, setFile_fileTable_self]

/-- The handle keeps its size up to there. -/
theorem size_target : (m'.sbi.fileTable fid).size = (m.sbi.fileTable fid).size := by
  rw [ht.fileTable, Iom.seekFile, setFile_fileTable_self]

end Seek

/-- Setting the file position does not change where a write goes. -/
theorem writeTarget_seekFile : (∃ m1, (m.seekFile fid offset).WriteTarget v m1 x a) ↔ ∃ m1, m.WriteTarget v m1 x a := by
  constructor
  · rintro ⟨m1,h⟩
    cases h with
    | own hz => exact ⟨_,.own hz⟩
    | taken b hz hb => exact ⟨_,.taken b hz ⟨hb.scan,hb.lt,hb.room⟩⟩
  · rintro ⟨m1,h⟩
    cases h with
    | own hz => exact ⟨_,.own hz⟩
    | taken b hz hb => exact ⟨_,.taken (m := m.seekFile fid offset) b hz ⟨hb.scan,hb.lt,hb.room⟩⟩

theorem wp_allocBlockInbmap_scan {Q : ℤ × ℕ → Sys → Prop} (hm : s.iom.Mounted) (hu : (∀ b, ¬s.iom.Takes b) → u)
    (hfail : ∀ s' b, (∀ b, ¬s.iom.Takes b) → s'.iom.iomBufDbmap = none → Q (lab4Error,b) s')
    (hok : ∀ s' b, s.iom.Takes b → s'.iom = s.iom.takeBlock b → s'.clock = s.clock → Q (lab4Success,b) s') :
    wp u allocBlockInbmap Q e s := by
  simp only [allocBlockInbmap, scanAllocateDbmap, wp_bind, wp_getIom, hm.dbmap_eq, wp_lift]
  refine ⟨fun hnone => hu (fun b hb => ?_),?_⟩
  · cases hb.scan.symm.trans hnone
  rintro ⟨found,b⟩ hscan
  rw [wp_ite]
  refine ⟨fun hb => ?_,fun hb => ?_⟩
  · obtain ⟨rfl,hlt⟩ := hb
    simp only [wp_bind, wp_setIom, wp_pure, decFreeBlocks]
    refine wp_bumpFreeBlocks_at (fun hn => hu (fun b' hb' => hn hb'.room)) (fun hroom => ?_)
    rw [if_neg (by decide), wp_pure]
    refine hok _ b ⟨hscan,hlt,hroom⟩ ?_ rfl
    rw [lab4SetBit_snd]
    rfl
  · have hno : ∀ b, ¬s.iom.Takes b := by
      intro b' hb'
      cases hb'.scan.symm.trans hscan
      exact hb ⟨rfl,hb'.lt⟩
    simp only [wp_bind, wp_setIom, wp_pure, ↓reduceIte]
    exact hfail _ b hno rfl

/-- `do_write` on an open handle reads the record and finds the block. -/
theorem wp_writeEntry_open {Q : Except ℤ (Inode × ℤ) → Sys → Prop} (hm : s.iom.Mounted) (ho : s.iom.OpenOn fid v)
    (hu : v.iSize = 0 → (∀ b, ¬s.iom.Takes b) → u)
    (herr : ∀ s', e.mallocFails s.clock = true → s'.iom = s.iom.seekFile fid offset → Q (.error lab4Error) s')
    (hgo : ∀ s' x a, e.mallocFails s.clock = false → (s.iom.seekFile fid offset).WriteTarget v s'.iom x a →
      s'.clock = s.clock + 1 → Q (.ok (x,(a : ℕ))) s') :
    wp u (writeEntry fid offset) Q e s := by
  obtain ⟨m0,hm0⟩ : ∃ m0, m0 = s.iom.seekFile fid offset := ⟨_,rfl⟩
  have hmount : m0.Mounted := hm0 ▸ hm.setFile
  have hrec : m0.inode (s.iom.sbi.fileTable fid).ino.toNat = v := by
    rw [hm0, ho.record]
    rfl
  have hnum : m0.inodeNum = s.iom.inodeNum := by
    rw [hm0]
    rfl
  have htakes' : ∀ b, s.iom.Takes b → m0.Takes b := by
    intro b hb
    rw [hm0]
    exact ⟨hb.scan,hb.lt,hb.room⟩
  unfold writeEntry
  rw [wp_bind, wp_getIom, if_neg (Nat.not_le.mpr ho.handle), wp_bind, wp_modifyIom, wp_bind]
  change wp u (doReadInode _) _ e { s with iom := s.iom.seekFile fid offset }
  rw [← hm0] at herr hgo ⊢
  refine wp_doReadInode_at ho.lo (hnum ▸ ho.hi) (fun hfail => ?_) (fun hfail => ?_)
  · dsimp only
    rw [wp_pure]
    exact herr _ hfail rfl
  · dsimp only
    rw [hrec, wp_ite]
    refine ⟨fun hz => ?_,fun hz => ?_⟩
    · rw [wp_bind]
      refine wp_allocBlockInbmap_scan hmount (fun hno => hu hz (fun b hb => hno b (htakes' b hb)))
        (fun s1 b hno hnone => ?_) (fun s1 b hb h1 hclock => ?_)
      · dsimp only
        rw [if_pos rfl, wp_bind]
        simp only [restoreDbmap, reloadCluster, wp_bind, wp_getIom, hnone, wp_undefined]
        exact hu hz (fun b hb => hno b (htakes' b hb))
      · have haddr : s.iom.writeBlocknr b = m0.blockAddr b := by
          rw [hm.writeBlocknr_eq, hm0]
          rfl
        have htarget := Iom.WriteTarget.taken b hz hb
        dsimp only
        rw [if_neg (by decide), Iom.writeAddr, haddr, wp_pure]
        refine hgo s1 _ _ hfail ?_ hclock
        rw [h1]
        exact htarget
    · rw [wp_pure]
      exact hgo _ _ _ hfail (.own hz) rfl

theorem wp_doWrite_entry {Q : ℤ → Sys → Prop} (hm : s.iom.Mounted) (ho : s.iom.OpenOn fid v)
    (hu : v.iSize = 0 → (∀ b, ¬s.iom.Takes b) → u)
    (herr : ∀ s', e.mallocFails s.clock = true → s'.iom = s.iom.seekFile fid offset → Q lab4Error s')
    (hgo : ∀ s' x a, e.mallocFails s.clock = false → (s.iom.seekFile fid offset).WriteTarget v s'.iom x a →
      s'.clock = s.clock + 1 → wp u (writeBlock fid buf size offset x (a : ℕ)) Q e s') :
    wp u (doWrite fid buf size offset) Q e s := by
  rw [doWrite_eq, wp_bind]
  refine wp_writeEntry_open hm ho hu (fun s1 hf h1 => ?_) hgo
  dsimp only
  rw [wp_pure]
  exact herr s1 hf h1

/-- The loop starts on the file's block. -/
theorem WriteReaches.target {blocknr : ℤ} {c : WriteState} {t : Sys} (h : WriteReaches e s fid size offset blocknr c t)
    (hm : s.iom.Mounted) (ho : s.iom.OpenOn fid v) :
    ∃ a : ℕ, blocknr = (a + offset : ℕ) ∧ (s.iom.seekFile fid offset).WriteTarget v t.iom c.inode a := by
  obtain ⟨x,a,s1,hrun,rfl,rfl,rfl⟩ := h
  have hwp : wp True (writeEntry fid offset) (fun r s' => ∀ y a, r = .ok (y,a) → ∃ k : ℕ, a = k ∧
      (s.iom.seekFile fid offset).WriteTarget v s'.iom y k) e s := by
    refine wp_writeEntry_open hm ho (fun _ _ => trivial) (fun _ _ _ _ _ hr => (by cases hr)) (fun s' y k _ ht _ z a hr => ?_)
    cases hr
    exact ⟨k,rfl,ht⟩
  obtain ⟨k,rfl,ht⟩ := hwp.elim hrun x a rfl
  exact ⟨k,Nat.cast_add k offset |>.symm,ht⟩

section Rounds
variable {c : WriteState} {Q : Except (Option (Inode × ℤ)) WriteState → Sys → Prop}

theorem wp_writeRound_append (hgrow : c.inode.iSize.toInt ≤ (s.iom.sbi.fileTable fid).rwoffset)
    (hn : roundSize s.iom.clusterSize offset c.size = n)
    (hfail : e.ioFails s.clock = true → Q (.error none) s.next)
    (hlost : ∀ s', e.ioFails s.clock = false → toS32 n = lab4Error → s'.iom = s.iom.writeDev a n buf → Q (.error none) s')
    (hok : ∀ s', e.ioFails s.clock = false → s'.clock = s.clock + 1 →
      s'.iom = (s.iom.writeDev a n buf).setFile fid { s.iom.sbi.fileTable fid with
        rwoffset := (s.iom.sbi.fileTable fid).rwoffset + n, size := (s.iom.sbi.fileTable fid).grownSize n } →
      Q (.ok ⟨c.size - n,{ c.inode with iSize := Int64.ofInt ((s.iom.sbi.fileTable fid).grownSize n) },toS32 n⟩) s') :
    wp u (writeRound fid buf offset (a : ℕ) c) Q e s :=
  wp_appendRound hgrow hn (fun hf => hfail (hf.resolve_left (by omega))) (fun s' _ => hlost s') (fun s' _ => hok s')

theorem wp_writeRound_copy (hm : s.iom.Mounted) (hgrow : (s.iom.sbi.fileTable fid).rwoffset < c.inode.iSize.toInt)
    (hn : roundSize s.iom.clusterSize offset c.size = n) (hu : e.mallocFails s.clock = true → u)
    (hfail : ∀ s', e.ioFails (s.clock + 1) = true → s'.iom = s.iom → Q (.error none) s')
    (hok : ∀ s', e.ioFails (s.clock + 1) = false → s'.clock = s.clock + 2 →
      s'.iom = (s.iom.writeDev a s.iom.clusterSize (strncpyBuf buf c.size)).setFile fid
        { s.iom.sbi.fileTable fid with rwoffset := n, size := n } →
      Q (.ok ⟨c.size - n,{ c.inode with iSize := Int64.ofInt n },(s.iom.clusterSize : ℕ)⟩) s') :
    wp u (writeRound fid buf offset (a : ℕ) c) Q e s := by
  have hcs := hm.cluster_le
  exact wp_copyRound (by omega) hgrow hn hu (fun s' _ hf => hfail s' (hf.resolve_left (by omega))) (fun s' _ _ => hok s')

end Rounds

end SimpleFS
