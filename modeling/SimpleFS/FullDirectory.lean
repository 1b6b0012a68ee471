import SimpleFS.DirectoryMap

/-! # Full directories

A creation writes its entry where the loop for a free slot stops. With a free slot that is the slot, and
the next lookup finds the name. Without one it is the byte behind the last slot, and no lookup looks there.
-/
namespace SimpleFS
open Bytes Machine Prog

/-- A live directory of `n` slots: a record of its own that is in use and a data block that is in use and
holds the slots. The block ends at byte 2^31 of the device at most: behind it `lab4_createfile` reads a negative
address and returns success without an entry, although slots are free. -/
structure Iom.DirSlots (m : Iom) (D n : ℕ) : Prop where
  lo : 2 ≤ D
  lt : D < m.inodeNum
  set : m.ibit D = true
  type : (m.inode D).iType = lab4TypeDirectory
  ino : (m.inode D).iIno.toNat = D
  size : (m.inode D).iSize.toInt = (lab4DirEntrySize * n : ℕ)
  fits : lab4DirEntrySize * n ≤ m.clusterSize
  owner : ∃ b, m.dataAddr D = m.blockAddr b ∧ m.dbit b = true ∧ m.blockAddr b + m.clusterSize ≤ 2^31

def Iom.SlotUsed (m : Iom) (D i : ℕ) : Prop := (m.slotEntry D i).dFlag = lab4DirUsed

instance (m : Iom) (D i : ℕ) : Decidable (m.SlotUsed D i) := inferInstanceAs (Decidable (_ = _))

/-- All slots are in use. -/
def Iom.FullSlots (m : Iom) (D n : ℕ) : Prop := ∀ i < n, m.SlotUsed D i

instance (m : Iom) (D n : ℕ) : Decidable (m.FullSlots D n) := inferInstanceAs (Decidable (∀ i < n, m.SlotUsed D i))

/-- No used slot has the name. -/
def Iom.NewName (m : Iom) (D n : ℕ) (x : List UInt8) : Prop :=
  ∀ i < n, m.SlotUsed D i → cstr (m.slotEntry D i).dFilename ≠ x

instance (m : Iom) (D n : ℕ) (x : List UInt8) : Decidable (m.NewName D n x) :=
  inferInstanceAs (Decidable (∀ i < n, m.SlotUsed D i → cstr (m.slotEntry D i).dFilename ≠ x))

/-- One slot that was not in use holds an entry for the name, and the rest of the block is as it was. -/
def Iom.Placed (m m' : Iom) (D n : ℕ) (x : List UInt8) : Prop :=
  ∃ i < n, ¬m.SlotUsed D i ∧ (∃ k ver, m'.slotEntry D i = DirEntry.used k ver x) ∧
    ∀ j < m.clusterSize, ¬(lab4DirEntrySize * i ≤ j ∧ j < lab4DirEntrySize * i + lab4DirEntrySize) →
      m'.dev.bytes (m.dataAddr D + j) = m.dev.bytes (m.dataAddr D + j)

/-- Bitmaps, inode table and every block of the data area are as they were. -/
structure Iom.Untouched (m m' : Iom) : Prop where
  ibit : m'.ibit = m.ibit
  dbit : m'.dbit = m.dbit
  inode : m'.inode = m.inode
  data : ∀ a, 4 * m.clusterSize ≤ a → m'.dev.bytes a = m.dev.bytes a

/-- A creation keeps to the slots of its directory: it takes an unused one, or returns an error and changes
nothing, and what it has created is found. -/
structure Request.KeepsToSlots (q : Request) (s : Sys) (D n : ℕ) (x : List UInt8) : Prop where
  placed : ∀ {e : Env} {s' : Sys}, e.Nominal → q.run e s = some (lab4Success,s') → s.iom.Placed s'.iom D n x
  rejects : s.iom.FullSlots D n → ∀ {e : Env}, e.Nominal →
    ∃ r s', q.run e s = some (r,s') ∧ r < 0 ∧ s.iom.Untouched s'.iom
  found : ∀ {e e' : Env} {s' : Sys}, e.Nominal → e'.Nominal → q.run e s = some (lab4Success,s') →
    ∃ k, lookupIn e' s' D x = some (lab4Success,k)

/-! ## The data area after a creation -/

section Bytes
variable {m : Iom} {k b a c : ℕ} {v : Inode} {d : DirEntry}

theorem bytes_writeLow {n : ℕ} {x : Mem} (hlow : a + n ≤ 4 * m.clusterSize) (hc : 4 * m.clusterSize ≤ c) :
    (m.writeDev a n x).dev.bytes c = m.dev.bytes c := splice_outside (.inr (by omega))

namespace Iom.Mounted
variable (h : m.Mounted) (hc : 4 * m.clusterSize ≤ c)
include h hc

theorem bytes_flushSb : m.flushSb.dev.bytes c = m.dev.bytes c :=
  bytes_writeLow (by rw [h.sbStart, h.sbiCluster]; omega) hc

theorem bytes_flushIbmap : m.flushIbmap.dev.bytes c = m.dev.bytes c :=
  bytes_writeLow (by rw [h.ibitmapStart, h.sbiCluster]; omega) hc

theorem bytes_flushDbmap : m.flushDbmap.dev.bytes c = m.dev.bytes c :=
  bytes_writeLow (by rw [h.dbitmapStart, h.sbiCluster]; omega) hc

theorem bytes_flushItble : m.flushItble.dev.bytes c = m.dev.bytes c :=
  bytes_writeLow (by rw [h.itableStart, h.sbiCluster]; omega) hc

theorem bytes_flushAll : m.flushAll.dev.bytes c = m.dev.bytes c := by
  rw [Iom.flushAll, h.flushSb.flushIbmap.flushDbmap.bytes_flushItble hc, h.flushSb.flushIbmap.bytes_flushDbmap hc,
    h.flushSb.bytes_flushIbmap hc, h.bytes_flushSb hc]

theorem bytes_flushInodes : m.flushSb.flushIbmap.flushItble.dev.bytes c = m.dev.bytes c := by
  rw [h.flushSb.flushIbmap.bytes_flushItble hc, h.flushSb.bytes_flushIbmap hc, h.bytes_flushSb hc]

theorem bytes_createFile :
    (m.createFile k v a d).dev.bytes c = splice m.dev.bytes a lab4DirEntrySize (dirEntryCodec.enc d) c := by
  have hw : ((((m.takeInode k).setInode k v).writeEntry a d).addFreeInodes (-1)).Mounted :=
    h.takeInode.setInode.writeEntry.addFreeInodes
  have hc' : 4 * ((((m.takeInode k).setInode k v).writeEntry a d).addFreeInodes (-1)).clusterSize ≤ c := by
    simpa [Iom.writeEntry] using hc
  rw [Iom.createFile, hw.bytes_flushInodes hc', Iom.addFreeInodes_dev]
  exact congrArg (fun x => splice x.bytes a lab4DirEntrySize (dirEntryCodec.enc d) c) (Iom.takeInode_dev m k)

theorem bytes_linkFlush {f : UInt32 → UInt32} : (m.addLink f k).flushAll.dev.bytes c = m.dev.bytes c :=
  h.addLink.bytes_flushAll hc

omit h hc in
theorem makeDir_area (par : UInt32) :
    ((((((m.takeInode k).takeBlock b).setBlknr b).setInode k v).writeEntry a d).writeDev (m.blockAddr b) m.clusterSize
      (newDirArea (UInt32.ofNat k) par)).dev.bytes =
      splice (splice m.dev.bytes a lab4DirEntrySize (dirEntryCodec.enc d)) (m.blockAddr b) m.clusterSize
        (newDirArea (UInt32.ofNat k) par) := by
  have hdev : ((((m.takeInode k).takeBlock b).setBlknr b).setInode k v).dev = m.dev := by
    rw [Iom.setInode_dev, Iom.setBlknr_dev, Iom.takeBlock_dev, Iom.takeInode_dev]
  rw [← hdev]
  rfl

theorem bytes_makeDir (par : UInt32) : (m.makeDir k b v a d par).dev.bytes c =
    splice (splice m.dev.bytes a lab4DirEntrySize (dirEntryCodec.enc d)) (m.blockAddr b) m.clusterSize
      (newDirArea (UInt32.ofNat k) par) c := by
  have hw : ((((((m.takeInode k).takeBlock b).setBlknr b).setInode k v).writeEntry a d).writeDev
      (m.blockAddr b) m.clusterSize (newDirArea (UInt32.ofNat k) par)).Mounted :=
    h.takeInode.takeBlock.setBlknr.setInode.writeEntry.writeDev
  have hcs : ((((((m.takeInode k).takeBlock b).setBlknr b).setInode k v).writeEntry a d).writeDev
      (m.blockAddr b) m.clusterSize (newDirArea (UInt32.ofNat k) par)).clusterSize = m.clusterSize := by
    rw [Iom.writeDev_clusterSize, Iom.writeEntry, Iom.writeDev_clusterSize, Iom.setInode_clusterSize,
      Iom.setBlknr_clusterSize, Iom.takeBlock_clusterSize, Iom.takeInode_clusterSize]
  rw [← makeDir_area par]
  exact hw.bytes_linkFlush (by rw [hcs]; exact hc)

end Iom.Mounted

end Bytes

/-! ## The slots of a live directory -/

variable {e e' : Env} {s s' : Sys} {m m' : Iom} {D n k b i j : ℕ} {x : List UInt8} {v : Inode} {found : Bool}

theorem lookupTest_true {d : DirEntry} (h : lookupTest x d = some true) : d.dFlag = lab4DirUsed ∧ cstr d.dFilename = x := by
  unfold lookupTest strcmpName at h
  split at h
  · next hf =>
    split at h
    · exact ⟨hf,of_decide_eq_true (Option.some.inj h)⟩
    · split at h <;> cases h
  · cases h

namespace Iom.DirSlots
variable (hm : m.Mounted) (h : m.DirSlots D n)
include h

theorem addr : ∃ b, m.dataAddr D = m.blockAddr b ∧ m.dbit b = true ∧ m.dataAddr D + m.clusterSize ≤ 2^31 := by
  obtain ⟨b,hb,hset,hle⟩ := h.owner
  exact ⟨b,hb,hset,by rwa [hb]⟩

theorem slot_lt (hi : i < n) : lab4DirEntrySize * i + lab4DirEntrySize ≤ m.clusterSize := by
  have := h.fits
  have := Nat.mul_le_mul_left lab4DirEntrySize hi
  unfold lab4DirEntrySize at *
  omega

theorem below_size : ((lab4DirEntrySize * i : ℕ) : ℤ) < (m.inode D).iSize.toInt ↔ i < n := by
  rw [h.size]
  unfold lab4DirEntrySize
  omega

/-- A slot in the buffer that a creation reads. -/
theorem entryAt_size (hi : i < n) : entryAt (splice zeros 0 (m.inode D).iSize.toInt.toNat (m.dev.bytes.shift (m.dataAddr D))) i =
    m.slotEntry D i := by
  rw [h.size, Int.toNat_natCast]
  refine entryAt_read ?_
  rw [Nat.mul_div_cancel_left n (by decide)]
  exact hi

theorem freeScan_cases (hf : m.freeScan (m.inode D) = some (found,i)) :
    (found = true → i < n ∧ ¬m.SlotUsed D i) ∧ (found = false → ∀ j < n, m.SlotUsed D j) := by
  have hsc := (slotLoop_scan hf).1
  constructor
  · intro hfound
    obtain ⟨hlt,ht⟩ := hsc.hit hfound
    rw [h.below_size] at hlt
    refine ⟨hlt,?_⟩
    have hentry : freeTest (m.slotEntry D i) = some true := by
      rw [← h.entryAt_size hlt]
      exact ht
    exact of_decide_eq_true (Option.some.inj hentry)
  · intro hfound j hj
    have hi : ¬i < n := fun hi => absurd (h.below_size.mpr hi) (not_lt.mpr (hsc.stop hfound))
    have hmiss := (hsc.miss j (Nat.zero_le j) (by omega)).2
    have hentry : freeTest (m.slotEntry D j) = some false := by
      rw [← h.entryAt_size hj]
      exact hmiss
    exact not_not.mp (of_decide_eq_false (Option.some.inj hentry))

/-- A lookup does not find a new name. -/
theorem scan_new (hx : m.NewName D n x) : m.scan (lookupTest x) D ≠ some (true,i) := by
  intro hs
  obtain ⟨hlt,ht⟩ := (slotLoop_scan hs).1.hit rfl
  obtain ⟨hu,hn⟩ := lookupTest_true ht
  exact hx i (h.below_size.mp hlt) hu hn

include hm in
theorem parent : m.Parent (m.inode D) := by
  obtain ⟨b,_,_,hle⟩ := h.addr
  have hcs := hm.cluster_le
  have hfits := h.fits
  have hsize := h.size
  have haddr : m.dataAddr D < 2^31 := by omega
  refine ⟨by omega,by omega,haddr,fun _ _ => ?_⟩
  rw [h.ino]
  exact haddr

end Iom.DirSlots

/-- A slot by its device address. -/
theorem slotEntry_eq (m : Iom) (D j : ℕ) :
    m.slotEntry D j = dirEntryCodec.get m.dev.bytes (m.dataAddr D + lab4DirEntrySize * j) := by
  refine dirEntryCodec.dec_congr (fun c _ _ => ?_)
  rw [Mem.shift_apply, Mem.shift_apply, Mem.shift_apply, Nat.add_assoc]

/-- Two volumes with one entry of difference in the block of a directory. -/
structure Iom.OneEntry (m m' : Iom) (D i : ℕ) (d : DirEntry) : Prop where
  addr : m'.dataAddr D = m.dataAddr D
  size : (m'.inode D).iSize = (m.inode D).iSize
  cluster : m'.clusterSize = m.clusterSize
  bytes : ∀ j < m.clusterSize, m'.dev.bytes (m.dataAddr D + j) =
    splice m.dev.bytes (m.dataAddr D + lab4DirEntrySize * i) lab4DirEntrySize (dirEntryCodec.enc d) (m.dataAddr D + j)

namespace Iom.OneEntry
variable {d : DirEntry} (h : m.OneEntry m' D i d)
include h

theorem slot_eq (hj : lab4DirEntrySize * j + lab4DirEntrySize ≤ m.clusterSize) : m'.slotEntry D j =
    dirEntryCodec.get (splice m.dev.bytes (m.dataAddr D + lab4DirEntrySize * i) lab4DirEntrySize (dirEntryCodec.enc d))
      (m.dataAddr D + lab4DirEntrySize * j) := by
  rw [slotEntry_eq, h.addr]
  refine dirEntryCodec.dec_congr (fun c _ hc => ?_)
  have hsz : dirEntryCodec.size = lab4DirEntrySize := rfl
  rw [Mem.shift_apply, Mem.shift_apply, Nat.add_assoc]
  exact h.bytes _ (by omega)

theorem slot_self (hi : lab4DirEntrySize * i + lab4DirEntrySize ≤ m.clusterSize) : m'.slotEntry D i = d := by
  have hput : splice m.dev.bytes (m.dataAddr D + lab4DirEntrySize * i) lab4DirEntrySize (dirEntryCodec.enc d) =
      dirEntryCodec.put m.dev.bytes (m.dataAddr D + lab4DirEntrySize * i) d := rfl
  rw [h.slot_eq hi, hput, dirEntryCodec.get_put_self]

theorem slot_of_ne (hj : lab4DirEntrySize * j + lab4DirEntrySize ≤ m.clusterSize) (hij : j ≠ i) :
    m'.slotEntry D j = m.slotEntry D j := by
  have hsz : dirEntryCodec.size = lab4DirEntrySize := rfl
  rw [h.slot_eq hj, slotEntry_eq, dirEntryCodec.get_splice_of_disjoint]
  unfold lab4DirEntrySize at *
  omega

variable {ino ver : UInt32} (hd : d = DirEntry.used ino ver x) (hD : m.DirSlots D n) (hi : i < n) (hu : ¬m.SlotUsed D i)
include hd hD hi

include hu in
theorem placed : m.Placed m' D n x := by
  refine ⟨i,hi,hu,⟨ino,ver,(h.slot_self (hD.slot_lt hi)).trans hd⟩,fun j hj hn => ?_⟩
  rw [h.bytes j hj]
  exact splice_outside (by omega)

/-- The loop of a lookup stops at the new entry. -/
theorem scan_eq (hx : x.length < fnameSize) (hnul : (0 : UInt8) ∉ x) (hnew : m.NewName D n x) :
    m'.scan (lookupTest x) D = some (true,i) := by
  have hsize : (m'.inode D).iSize.toInt = (lab4DirEntrySize * n : ℕ) := by rw [h.size, hD.size]
  have hfits := hD.fits
  have hleft : (m'.inode D).iSize.toInt ≤ (lab4DirEntrySize * (0 + m'.clusterSize / lab4DirEntrySize) : ℕ) := by
    rw [hsize, h.cluster]
    unfold lab4DirEntrySize at *
    omega
  obtain ⟨⟨found,j⟩,hj⟩ := Option.isSome_iff_exists.mp (slotLoop_isSome (lookupTest_isSome hx) hleft)
  have hscan : SlotScan (lookupTest x) (m'.inode D).iSize.toInt (m'.dev.bytes.shift (m'.dataAddr D)) 0 true i := by
    refine ⟨Nat.zero_le i,fun l _ hl => ⟨?_,?_⟩,fun _ => ⟨?_,?_⟩,nofun⟩
    · rw [hsize]
      unfold lab4DirEntrySize
      omega
    · change lookupTest x (m'.slotEntry D l) = _
      rw [h.slot_of_ne (hD.slot_lt (hl.trans hi)) hl.ne, lookupTest_eq hx]
      refine congrArg some (decide_eq_false ?_)
      rintro ⟨hu,hn⟩
      exact hnew l (hl.trans hi) hu hn
    · rw [hsize]
      unfold lab4DirEntrySize
      omega
    · change lookupTest x (m'.slotEntry D i) = _
      rw [h.slot_self (hD.slot_lt hi), hd, lookupTest_eq hx]
      exact congrArg some (decide_eq_true ⟨rfl,cstr_strcpyName hx hnul⟩)
  obtain ⟨rfl,rfl⟩ := (slotLoop_scan hj).1.unique hscan
  exact hj

end Iom.OneEntry

section Created
variable {d : DirEntry} (hm : m.Mounted) (hD : m.DirSlots D n) (hbit : m.ibit k = false)
include hm hD hbit

omit hm in
theorem dirSlots_ne : D ≠ k := by
  rintro rfl
  cases hbit.symm.trans hD.set

omit hm hbit in
theorem data_le : 4 * m.clusterSize ≤ m.dataAddr D := by
  obtain ⟨b,hb,_⟩ := hD.owner
  rw [hb]
  exact Nat.le_add_left _ _

theorem oneEntry_createFile : m.OneEntry (m.createFile k v (slotAddr (m.inode D) i) d) D i d := by
  have hin : (m.createFile k v (slotAddr (m.inode D) i) d).inode D = m.inode D :=
    (congrFun (congrArg Books.inode (books_createFile ..)) D).trans (Books.store_of_ne (dirSlots_ne hD hbit))
  refine ⟨congrArg (fun r : Inode => (r.iBlocks 0).toNat) hin,congrArg Inode.iSize hin,
    fixed_cluster (fixed_createFile _ _ _ _),fun j _ => ?_⟩
  exact hm.bytes_createFile ((data_le hD).trans (Nat.le_add_right _ _))

theorem oneEntry_makeDir (hb : m.dbit b = false) :
    m.OneEntry (m.makeDir k b v (slotAddr (m.inode D) i) d (m.inode D).iIno) D i d := by
  have hin : (m.makeDir k b v (slotAddr (m.inode D) i) d (m.inode D).iIno).inode D =
      { m.inode D with iLinksCount := (m.inode D).iLinksCount + 1 } := by
    refine (congrFun (congrArg Books.inode (books_makeDir ..)) D).trans ?_
    have hold : ((m.books.take k v).own b).inode D = m.inode D := Books.store_of_ne (dirSlots_ne hD hbit)
    rw [hD.ino, Books.relink, Books.store_self, hold]
  refine ⟨by rw [Iom.dataAddr, hin]; rfl,by rw [hin],fixed_cluster (fixed_makeDir _ _ _ _ _ _),fun j hj => ?_⟩
  rw [hm.bytes_makeDir ((data_le hD).trans (Nat.le_add_right _ _))]
  -- the new block is not the one of the directory
  obtain ⟨q,hq,hset,_⟩ := hD.owner
  have hqb : q ≠ b := by
    rintro rfl
    cases hb.symm.trans hset
  refine splice_outside ?_
  rw [hq]
  unfold Iom.blockAddr
  rcases Nat.lt_or_gt_of_ne hqb with hlt | hlt
  · have := blockAddr_le_of_lt m.clusterSize hlt
    omega
  · have := blockAddr_le_of_lt m.clusterSize hlt
    omega

end Created

/-- What a lookup returns for the name of a slot. -/
theorem lookupIn_of_scan (he : e.Nominal) (hm : s.iom.Mounted) (hlo : 2 ≤ D) (hlt : D < s.iom.inodeNum)
    (haddr : s.iom.dataAddr D < 2^31) (hs : s.iom.scan (lookupTest x) D = some (true,i)) :
    lookupIn e s D x = some (lab4Success,(s.iom.slotEntry D i).dIno.toNat) := by
  have hP := UInt32.toNat_ofNat_index hm hlt
  have hwp : wp False (lab4Lookup (UInt32.ofNat D) DirEntry.zero x 0) (fun r _ => r = s.iom.lookupResult D i 0) e s := by
    refine wp_lab4Lookup he.io hm (fun _ _ => ?_) (fun _ _ hn => ?_) (fun _ hn => ?_) (fun _ _ hn => ?_)
      (fun _ j _ _ _ hj => ?_) (fun _ j _ _ _ hj => ?_)
    · rw [hP]
      exact haddr
    · rcases hn with hn | hn
      · omega
      · exact absurd he.malloc hn
    · omega
    · rw [hP, hs] at hn
      cases hn
    · rw [hP, hs] at hj
      cases hj
      rw [hP]
    · rw [hP, hs] at hj
      cases hj
  obtain ⟨r,s',hrun,hr⟩ := wp_false.mp hwp
  unfold lookupIn
  rw [hrun, hr, lookupResult_keep _ _ _ (by decide)]
  rfl


/-! ## Creations -/

/-- One entry for the name has been put into an unused slot of a mounted volume. -/
structure Iom.EntryIn (m m' : Iom) (D n : ℕ) (x : List UInt8) : Prop where
  mounted : m'.Mounted
  fits : x.length < fnameSize
  slot : ∃ i < n, ¬m.SlotUsed D i ∧ ∃ ino ver, m.OneEntry m' D i (DirEntry.used ino ver x)

section Creations
variable (hm : s.iom.Mounted) (hD : s.iom.DirSlots D n) (hnew : s.iom.NewName D n x) (hnul : (0 : UInt8) ∉ x)
include hm hD hnew

omit hnew in
theorem wp_createIn {mode : ℕ} {Q : ℤ → Sys → Prop} (he : e.Nominal) (herr : ∀ r s', r < 0 → s'.iom = s.iom → Q r s')
    (hok : ∀ s' k v found i, x.length < fnameSize → s.iom.ibit k = false → s.iom.freeScan (s.iom.inode D) = some (found,i) →
      s'.iom = s.iom.createFile k v (slotAddr (s.iom.inode D) i) (DirEntry.used (UInt32.ofNat k) 1 x) → Q lab4Success s') :
    wp True (Request.create D x mode).run Q e s := by
  rw [Request.run, wp_bind, wp_getIom, wp_bind]
  refine wp_lab4Createfile he.io hm (hD.parent hm) (fun _ => trivial) (fun s1 h1 _ => ?_) (fun s1 _ h1 _ _ _ => ?_) (fun s1 h1 _ _ => ?_)
    (fun _ hn => absurd he.malloc hn) (fun s1 k v found i _ hlt _ _ hbit _ _ _ hf h1 => ?_)
  · rw [wp_pure]
    exact herr _ s1 (by decide) h1
  · rw [wp_pure]
    exact herr _ s1 (by decide) h1
  · rw [wp_pure]
    exact herr _ s1 (by decide) h1
  · rw [wp_pure]
    exact hok s1 k v found i hlt hbit hf h1

theorem wp_mkdirIn {Q : ℤ → Sys → Prop} (he : e.Nominal)
    (hok : ∀ s' k b v found i, x.length < fnameSize → s.iom.ibit k = false → s.iom.dbit b = false →
      s.iom.freeScan (s.iom.inode D) = some (found,i) →
      s'.iom = s.iom.makeDir k b v (slotAddr (s.iom.inode D) i) (DirEntry.used (UInt32.ofNat k) 0 x) (s.iom.inode D).iIno →
      Q lab4Success s') : wp True (Request.mkdir D x).run Q e s := by
  rw [Request.run, wp_bind, wp_getIom]
  refine wp_doMkdir he.io hm (hD.parent hm) (fun _ i _ _ _ hs => ?_) (fun _ hn => absurd he.malloc hn)
    (fun s1 k b v found i hlt _ _ hbit _ _ hb _ _ _ hf _ h1 => hok s1 k b v found i hlt hbit hb hf h1)
  rw [hD.ino] at hs
  exact absurd hs (hD.scan_new hnew)

omit hm hnew in
theorem free_of_scan (hfree : ∃ i < n, ¬s.iom.SlotUsed D i) (hf : s.iom.freeScan (s.iom.inode D) = some (found,i)) :
    i < n ∧ ¬s.iom.SlotUsed D i := by
  cases found with
  | true => exact (hD.freeScan_cases hf).1 rfl
  | false =>
    obtain ⟨j,hj,hu⟩ := hfree
    exact absurd ((hD.freeScan_cases hf).2 rfl j hj) hu

omit hnew in
/-- With a free slot, what a creation has changed in its directory is one entry. -/
theorem create_entryIn (hfree : ∃ i < n, ¬s.iom.SlotUsed D i) (he : e.Nominal) {mode : ℕ}
    (hrun : (Request.create D x mode).run e s = some (lab4Success,s')) : s.iom.EntryIn s'.iom D n x := by
  refine (wp_createIn (Q := fun r s' => r = lab4Success → s.iom.EntryIn s'.iom D n x) hm hD he (fun r _ hr _ h0 => ?_)
    (fun s1 k v found i hlt hbit hf h1 _ => ?_)).elim hrun rfl
  · subst h0
    exact absurd hr (by decide)
  · obtain ⟨hi,hu⟩ := free_of_scan hD hfree hf
    rw [h1]
    exact ⟨hm.takeInode.setInode.writeEntry.addFreeInodes.flushSb.flushIbmap.flushItble,hlt,i,hi,hu,_,_,
      oneEntry_createFile hm hD hbit⟩

theorem mkdir_entryIn (hfree : ∃ i < n, ¬s.iom.SlotUsed D i) (he : e.Nominal)
    (hrun : (Request.mkdir D x).run e s = some (lab4Success,s')) : s.iom.EntryIn s'.iom D n x := by
  refine (wp_mkdirIn (Q := fun _ s' => s.iom.EntryIn s'.iom D n x) hm hD hnew he
    (fun s1 k b v found i hlt hbit hb hf h1 => ?_)).elim hrun
  obtain ⟨hi,hu⟩ := free_of_scan hD hfree hf
  rw [h1]
  exact ⟨hm.takeInode.takeBlock.setBlknr.setInode.writeEntry.writeDev.addLink.flushAll,hlt,i,hi,hu,_,_,
    oneEntry_makeDir hm hD hbit hb⟩

omit hm hnew in
theorem Iom.EntryIn.placed (h : s.iom.EntryIn s'.iom D n x) : s.iom.Placed s'.iom D n x := by
  obtain ⟨i,hi,hu,ino,ver,ho⟩ := h.slot
  exact ho.placed rfl hD hi hu

omit hm in
theorem Iom.EntryIn.lookup (h : s.iom.EntryIn s'.iom D n x) (hnul : (0 : UInt8) ∉ x) (he' : e'.Nominal) :
    ∃ k, lookupIn e' s' D x = some (lab4Success,k) := by
  obtain ⟨i,hi,_,ino,ver,ho⟩ := h.slot
  obtain ⟨b,_,_,hle⟩ := hD.addr
  have hcs := h.mounted.cluster_le
  rw [ho.cluster] at hcs
  refine ⟨_,lookupIn_of_scan he' h.mounted hD.lo ?_ ?_ (ho.scan_eq rfl hD hi h.fits hnul hnew)⟩
  · rw [Iom.inodeNum, ho.cluster]
    exact hD.lt
  · rw [ho.addr]
    omega

omit hm in
/-- A creation with an unused slot in its directory keeps to the slots. -/
theorem keepsToSlots {q : Request} (hnul : (0 : UInt8) ∉ x) (hfree : ∃ i < n, ¬s.iom.SlotUsed D i)
    (hq : ∀ {e : Env} {s' : Sys}, e.Nominal → q.run e s = some (lab4Success,s') → s.iom.EntryIn s'.iom D n x) :
    q.KeepsToSlots s D n x where
  placed := fun he hr => (hq he hr).placed hD
  rejects := fun hfull => by
    obtain ⟨i,hi,hu⟩ := hfree
    exact absurd (hfull i hi) hu
  found := fun he he' hr => (hq he hr).lookup hD hnew hnul he'

/-- A directory of any mounted volume handles new names as it should exactly if it has an unused slot. -/
theorem creations_keep_to_slots (hnul : (0 : UInt8) ∉ x) :
    ((∀ mode, (Request.create D x mode).KeepsToSlots s D n x) ∧ (Request.mkdir D x).KeepsToSlots s D n x) ↔
      ∃ i < n, ¬s.iom.SlotUsed D i := by
  constructor
  · rintro ⟨_,hmkdir⟩
    by_contra hn
    simp only [not_exists, not_and, not_not] at hn
    obtain ⟨r,s',hrun,hr,_⟩ := hmkdir.rejects hn quietEnv_nominal
    have h0 : r = lab4Success := (wp_mkdirIn (Q := fun r _ => r = lab4Success) hm hD hnew quietEnv_nominal
      (fun _ _ _ _ _ _ _ _ _ _ _ => rfl)).elim hrun
    subst h0
    exact absurd hr (by decide)
  · intro hfree
    exact ⟨fun mode => keepsToSlots hD hnew hnul hfree (fun he hr => create_entryIn hm hD hfree he hr),
      keepsToSlots hD hnew hnul hfree (fun he hr => mkdir_entryIn hm hD hnew hfree he hr)⟩

end Creations


/-! ## Two volumes -/

section Tests
variable (m : Iom) (D n b : ℕ)

/-- `Iom.Mounted` as a test. -/
def Iom.mountedTest : Bool :=
  decide (m.clusterSize = 4096 ∨ m.clusterSize = 8192) &&
  decide (m.sbi.clusterSize = m.clusterSize ∧ m.sbi.sbStart = 0 ∧ m.sbi.ibitmapStart = m.clusterSize ∧
    m.sbi.ibitmapSize = m.clusterSize ∧ m.sbi.dbitmapStart = 2 * m.clusterSize ∧ m.sbi.itableStart = 3 * m.clusterSize) &&
  decide (m.sbi.dareaStart = 4 * m.clusterSize ∧ m.superBlock.sbDareaStart = 4 ∧ m.sbi.rootIno = 2 ∧
    m.iomBufIbmap.isSome = true ∧ m.iomBufDbmap.isSome = true)

/-- `Iom.DirSlots` as a test, with the number of the block. -/
def Iom.dirSlotsTest : Bool :=
  decide (2 ≤ D ∧ D < m.inodeNum ∧ m.ibit D = true ∧ (m.inode D).iType = lab4TypeDirectory ∧ (m.inode D).iIno.toNat = D) &&
  decide ((m.inode D).iSize.toInt = (lab4DirEntrySize * n : ℕ) ∧ lab4DirEntrySize * n ≤ m.clusterSize ∧
    m.dataAddr D = m.blockAddr b ∧ m.dbit b = true ∧ m.blockAddr b + m.clusterSize ≤ 2^31)

end Tests

theorem mounted_of_test (h : m.mountedTest = true) : m.Mounted := by
  simp only [Iom.mountedTest, Bool.and_eq_true, decide_eq_true_eq] at h
  obtain ⟨⟨hc,h1,h2,h3,h4,h5,h6⟩,h7,h8,h9,h10,h11⟩ := h
  exact ⟨by unfold IsCluster; omega,h1,h2,h3,h4,h5,h6,h7,h8,h9,h10,h11⟩

theorem dirSlots_of_test (h : m.dirSlotsTest D n b = true) : m.DirSlots D n := by
  simp only [Iom.dirSlotsTest, Bool.and_eq_true, decide_eq_true_eq] at h
  obtain ⟨⟨hlo,hlt,hset,ht,hi⟩,hs,hf,ha,hb,hle⟩ := h
  exact ⟨hlo,hlt,hset,ht,hi,hs,hf,b,ha,hb,hle⟩

/-- On a blank device the root has unused slots. -/
theorem creations_keep_to_slots_blank : ∃ s0, formatAndMount quietEnv (blankDisk 80) = some (true,s0) ∧
    (∀ mode, (Request.create 2 [97] mode).KeepsToSlots s0 2 32 [97]) ∧ (Request.mkdir 2 [97]).KeepsToSlots s0 2 32 [97] := by
  have h : (formatAndMount quietEnv (blankDisk 80)).map (fun p =>
      (p.2.iom.mountedTest,p.2.iom.dirSlotsTest 2 32 0,decide (p.2.iom.NewName 2 32 [97]),
        decide (p.2.iom.FullSlots 2 32))) = some (true,true,true,false) := by decide +kernel
  obtain ⟨s0,hrun,_⟩ := blankDisk_mounts
  rw [hrun] at h
  simp only [Option.map_some, Option.some.injEq, Prod.mk.injEq] at h
  obtain ⟨hm,hd,hn,hf⟩ := h
  have hfree : ∃ i < 32, ¬s0.iom.SlotUsed 2 i := by
    have hn := of_decide_eq_false hf
    unfold Iom.FullSlots at hn
    simpa using hn
  exact ⟨s0,hrun,(creations_keep_to_slots (mounted_of_test hm) (dirSlots_of_test hd) (of_decide_eq_true hn)
    (by decide)).mpr hfree⟩

/-- The image of a device with clusters of 8192 bytes whose root holds 30 files. -/
def fullDevice : Device :=
  let d : Device := ⟨zeros,200,1024⟩
  let sb := { newSuperBlock d with sbFreeInodes := 1, sbLastAllocatedIno := 33 }
  let bytes := splice (formatImage d (rootInode sb 8192 0 0 0 0 0)) 0 8192 (superBlockCodec.put zeros 0 sb)
  let bytes := splice bytes 8192 5 (fun i => if i < 4 then 255 else 1)
  let file := fun k : ℕ =>
    { Inode.zero with iIno := UInt32.ofNat k, iType := lab4TypeFile, iVersion := 1, iLinksCount := 1 }
  let bytes := splice bytes (3 * 8192 + 3 * 128) (30 * 128) (fun a => inodeCodec.enc (file (a / 128 + 3)) (a % 128))
  let entry := fun i : ℕ => DirEntry.used (UInt32.ofNat (i + 3)) 1 [UInt8.ofNat (i + 97)]
  ⟨splice bytes (4 * 8192 + 2 * 128) (30 * 128) (fun a => dirEntryCodec.enc (entry (a / 128)) (a % 128)),200,1024⟩

set_option maxRecDepth 100000 in
/-- One more file in the full root: `lab4_createfile` reports success and no lookup finds it. -/
theorem full_directory_loses_entry : ∃ s0 s1, mount quietEnv ⟨openDevice fullDevice,0⟩ = some (true,s0) ∧
    s0.iom.Mounted ∧ s0.iom.DirSlots 2 32 ∧ s0.iom.NewName 2 32 [65] ∧ s0.iom.FullSlots 2 32 ∧
    (Request.create 2 [65] 0).run quietEnv s0 = some (lab4Success,s1) ∧
    lookupIn quietEnv s1 2 [65] = some (-enoent,0) ∧ ¬(Request.create 2 [65] 0).KeepsToSlots s0 2 32 [65] := by
  have h : (mount quietEnv ⟨openDevice fullDevice,0⟩).map (fun p => (p.1,p.2.iom.mountedTest,p.2.iom.dirSlotsTest 2 32 0,
      decide (p.2.iom.NewName 2 32 [65]),decide (p.2.iom.FullSlots 2 32))) = some (true,true,true,true,true) := by decide +kernel
  have hcreate : ((mount >>= fun _ => (Request.create 2 [65] 0).run) quietEnv ⟨openDevice fullDevice,0⟩).map
      (fun p => (p.1,lookupIn quietEnv p.2 2 [65])) = some (lab4Success,some (-enoent,0)) := by decide +kernel
  obtain ⟨⟨ok,s0⟩,hrun,hp⟩ := Option.map_eq_some_iff.mp h
  simp only [Prod.mk.injEq] at hp
  obtain ⟨rfl,hm,hd,hn,hf⟩ := hp
  obtain ⟨⟨r,s1⟩,hq,hr⟩ := Option.map_eq_some_iff.mp hcreate
  rw [bind_apply, hrun] at hq
  obtain ⟨rfl,hlook⟩ := Prod.ext_iff.mp hr
  refine ⟨s0,s1,hrun,mounted_of_test hm,dirSlots_of_test hd,of_decide_eq_true hn,of_decide_eq_true hf,hq,hlook,fun hk => ?_⟩
  obtain ⟨k,hk⟩ := hk.found quietEnv_nominal quietEnv_nominal hq
  exact absurd (congrArg Prod.fst (Option.some.inj (hk.symm.trans hlook))) (show lab4Success ≠ -enoent by decide)

end SimpleFS
