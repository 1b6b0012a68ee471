import SimpleFS.WriteRounds

/-! # What a write inside the block leaves

A write that does not reach beyond the cluster takes one round. It appends, which is right as long as the
handle knows no larger size and the gap holds zeros, or it replaces the whole cluster by a text.
-/
namespace SimpleFS
open Bytes Machine Prog

variable {u : Prop} {e : Env} {s : Sys} {m m0 m1 m' : Iom} {fid offset size a : ℕ} {buf : Mem} {v x : Inode}

/-! ## The contract -/

/-- Record `k` after a write: the block it names is its old one, or one taken for it, and holds the buffer in
the window, the old bytes beside it and zeros between the old end and the window. -/
structure Iom.BytesWritten (m : Iom) (v : Inode) (buf : Mem) (size offset : ℕ) (m' : Iom) (k : ℕ) : Prop where
  kept : v.iSize ≠ 0 → m'.dataAddr k = (v.iBlocks 0).toNat
  taken : v.iSize = 0 → ∃ b, m.dbit b = false ∧ m'.dbit b = true ∧ m'.dataAddr k = m.blockAddr b
  window : ∀ j < size, m'.dev.bytes (m'.dataAddr k + (offset + j)) = buf j
  rest : ∀ j : ℕ, j < v.iSize.toInt → j < offset ∨ offset + size ≤ j →
    m'.dev.bytes (m'.dataAddr k + j) = m.dev.bytes ((v.iBlocks 0).toNat + j)
  gap : ∀ j : ℕ, v.iSize.toInt ≤ j → j < offset → m'.dev.bytes (m'.dataAddr k + j) = 0
  size : (m'.inode k).iSize.toInt = max v.iSize.toInt (offset + size : ℕ)

/-- `do_write` as an update of a byte array: if it does not return an error it returns `size` and has written
the bytes. -/
def WritesBytes (s : Sys) (fid : ℕ) (v : Inode) (buf : Mem) (size offset : ℕ) : Prop :=
  ∀ e r s', doWrite fid buf size offset e s = some (r,s') → 0 ≤ r →
    r = size ∧ s.iom.BytesWritten v buf size offset s'.iom (s.iom.sbi.fileTable fid).ino.toNat

/-- When an append at block address `a` is right. -/
structure Iom.AppendExact (m : Iom) (fid : ℕ) (v : Inode) (size offset a : ℕ) : Prop where
  addr : v.iSize = 0 → a < 2^32
  handle : (m.sbi.fileTable fid).size ≤ (offset + size : ℕ)
  gap : ∀ j : ℕ, v.iSize.toInt ≤ j → j < offset → m.dev.bytes (a + j) = 0

/-- When a copy is right: it replaces a whole cluster, and the buffer holds a text and zeros. -/
structure Iom.CopyExact (m : Iom) (v : Inode) (buf : Mem) (size offset : ℕ) : Prop where
  start : offset = 0
  whole : size = m.clusterSize
  fits : v.iSize.toInt ≤ size
  text : ∀ i < size, buf i ≠ 0 → ∀ j < i, buf j ≠ 0

def Iom.WriteExact (m : Iom) (fid : ℕ) (v : Inode) (buf : Mem) (size offset : ℕ) : Prop :=
  (v.iSize.toInt ≤ offset → ∀ m1 x a, m.WriteTarget v m1 x a → m.AppendExact fid v size offset a) ∧
    (offset < v.iSize.toInt → m.CopyExact v buf size offset)

/-! ## One round -/

theorem size_ne_zero (h : (offset : ℤ) < v.iSize.toInt) : v.iSize ≠ 0 := by
  intro h0
  rw [h0] at h
  exact absurd h (Int.not_lt.mpr (Int.natCast_nonneg offset))

/-- Inside the block a write fails, or appends, or copies. -/
theorem wp_doWrite_within {Q : ℤ → Sys → Prop} (hm : s.iom.Mounted) (ho : s.iom.FileOpen fid v) (hsize : 1 ≤ size)
    (hin : offset + size ≤ s.iom.clusterSize)
    (hu : ¬(e.Nominal ∧ 0 < e.fuel ∧ (v.iSize = 0 → ∃ b, s.iom.Takes b)) → u)
    (herr : ∀ s', ¬e.Nominal → Q lab4Error s')
    (happend : ∀ s' m1 x a, (s.iom.seekFile fid offset).WriteTarget v m1 x a → v.iSize.toInt ≤ offset →
      (m1.appendData fid buf size offset a).StoresRecord { x with iSize := Int64.ofInt (m1.appendSize fid size offset) } s'.iom →
      Q (size : ℕ) s')
    (hcopy : ∀ s', offset < v.iSize.toInt →
      ((s.iom.seekFile fid offset).overwriteData fid buf size offset (v.iBlocks 0).toNat).StoresRecord
        { v with iSize := Int64.ofInt (size : ℕ) } s'.iom → Q (s.iom.clusterSize : ℕ) s') :
    wp u (doWrite fid buf size offset) Q e s := by
  have hcs := hm.cluster_le
  have hino : v.iIno.toNat < s.iom.inodeNum := by
    rw [ho.self]
    exact ho.hi
  refine wp_doWrite_entry hm ho.toOpenOn (fun hz hno => hu (fun hn => (hn.2.2 hz).elim hno))
    (fun s1 hf _ => herr s1 (fun he => by cases hf.symm.trans (he.malloc _))) (fun s1 y a _ ht _ => ?_)
  -- what the loop reads at its start
  have hm1 : s1.iom.Mounted := ht.mounted hm.setFile
  have hcs1 : s1.iom.clusterSize = s.iom.clusterSize := ht.clusterSize
  have hrw : (s1.iom.sbi.fileTable fid).rwoffset = offset := rwoffset_target ht
  have hround : roundSize s1.iom.clusterSize offset size = size := by
    unfold roundSize
    rw [hcs1, curRemain_eq (by omega) (by omega)]
    omega
  have hnum : ∀ {m : Iom}, m.clusterSize = s.iom.clusterSize → y.iIno.toNat < m.inodeNum := by
    intro m hmcs
    rw [Iom.inodeNum, hmcs, ht.iIno]
    exact hino
  have hne : size ≠ 0 := by omega
  have hgo : ∀ w, writeDone ⟨size,y,w⟩ = none := fun _ => writeDone_none hne
  have hdone : ∀ z w, writeDone ⟨size - size,z,w⟩ = some (some (z,w)) := fun _ _ =>
    writeDone_some (Nat.sub_self size)
  refine wp_writeBlock_loop ?_
  rw [← Nat.cast_add]
  cases hfuel : e.fuel with
  | zero => exact (wp_whileLoop_zero (hgo _)).mpr (hu (fun hn => by omega))
  | succ n =>
    refine (wp_whileLoop_round (hgo _)).mpr ?_
    by_cases hle : v.iSize.toInt ≤ offset
    · have hgrow : y.iSize.toInt ≤ (s1.next.iom.sbi.fileTable fid).rwoffset := by
        rw [Sys.next_iom, hrw, ht.iSize]
        exact hle
      refine wp_writeRound_append hgrow hround (fun hf => ?_) (fun s2 _ hl _ => ?_) (fun s2 _ _ h2 => ?_)
      · refine ⟨fun r hr => ?_,fun c' hc => (by cases hc)⟩
        cases hr
        exact ⟨fun _ => herr _ (fun he => by cases hf.symm.trans (he.io _)),fun _ _ hx => (by cases hx)⟩
      · exact absurd hl (toS32_ne_error (by omega))
      · refine ⟨fun r hr => (by cases hr),fun c' hc => ?_⟩
        cases hc
        refine (wp_whileLoop_exit (hdone _ _)).mpr ⟨fun hn => (by cases hn),fun z w hz => ?_⟩
        cases hz
        have hgrown : (s1.next.iom.sbi.fileTable fid).grownSize size = s1.iom.appendSize fid size offset := by
          rw [Sys.next_iom, FileTable.grownSize, hrw, ← Nat.cast_add]
          rfl
        have hdata : s2.iom = s1.iom.appendData fid buf size offset a := by
          rw [h2, hgrown, Sys.next_iom, hrw, ← Nat.cast_add]
          rfl
        rw [hgrown, toS32_natCast (by omega)]
        refine ⟨hdata ▸ hm1.appendData,hnum (by rw [hdata]; exact hcs1),fun t hst => ?_⟩
        rw [hdata] at hst
        exact happend t _ _ _ ht hle hst
    · have hgrow : (s1.next.iom.sbi.fileTable fid).rwoffset < y.iSize.toInt := by
        rw [Sys.next_iom, hrw, ht.iSize]
        exact Int.not_le.mp hle
      -- the file has data, so the block is the one it had
      have hz : v.iSize ≠ 0 := size_ne_zero (Int.not_le.mp hle)
      obtain ⟨hs1,rfl,rfl⟩ := ht.of_size hz
      refine wp_writeRound_copy hm1 hgrow hround (fun hf => hu (fun hn => by cases hf.symm.trans (hn.1.malloc _)))
        (fun s2 hf _ => ?_) (fun s2 _ _ h2 => ?_)
      · refine ⟨fun r hr => ?_,fun c' hc => (by cases hc)⟩
        cases hr
        exact ⟨fun _ => herr _ (fun he => by cases hf.symm.trans (he.io _)),fun _ _ hx => (by cases hx)⟩
      · refine ⟨fun r hr => (by cases hr),fun c' hc => ?_⟩
        cases hc
        refine (wp_whileLoop_exit (hdone _ _)).mpr ⟨fun hn => (by cases hn),fun z w hw => ?_⟩
        cases hw
        have hdata : s2.iom = s1.iom.overwriteData fid buf size offset (y.iBlocks 0).toNat := h2
        refine ⟨hdata ▸ hm1.overwriteData,hnum (by rw [hdata]; exact hcs1),fun t hst => ?_⟩
        rw [hdata, hs1] at hst
        rw [Sys.next_iom, hcs1]
        exact hcopy t (Int.not_le.mp hle) hst

/-! ## An append -/

section Append
variable (ho : m.FileOpen fid v) (ht : (m.seekFile fid offset).WriteTarget v m1 x a)
  (hst : (m1.appendData fid buf size offset a).StoresRecord { x with iSize := Int64.ofInt (m1.appendSize fid size offset) } m')
include ho ht hst

theorem append_inode : m'.inode (m.sbi.fileTable fid).ino.toNat =
    { x with iSize := Int64.ofInt (m1.appendSize fid size offset) } := by
  have hk : (m.sbi.fileTable fid).ino.toNat = x.iIno.toNat := by rw [ht.iIno, ho.self]
  rw [hk]
  exact (hst.inode _).trans (Function.update_self ..)

theorem append_bytes {j : ℕ} : m'.dev.bytes (a + j) = splice m.dev.bytes (a + offset) size buf (a + j) := by
  have hcs : (m1.appendData fid buf size offset a).clusterSize = m.clusterSize := ht.clusterSize
  have ha : 4 * m.clusterSize ≤ a := ht.behind ho.data
  have hdev : m1.dev = m.dev := ht.dev
  rw [hst.bytes (not_mem_metadata (by omega)), ← hdev]
  rfl

theorem append_size (hsize : 1 ≤ size) (hin : offset + size ≤ 2^31) (hle : v.iSize.toInt ≤ offset) :
    (m'.inode (m.sbi.fileTable fid).ino.toNat).iSize.toInt = max v.iSize.toInt (offset + size : ℕ) ↔
      (m.sbi.fileTable fid).size ≤ (offset + size : ℕ) := by
  have hlo := ho.sizeLo
  have hhi := ho.sizeHi
  have hft : (m1.sbi.fileTable fid).size = (m.sbi.fileTable fid).size := size_target ht
  have hval : (Int64.ofInt (m1.appendSize fid size offset)).toInt = m1.appendSize fid size offset := by
    refine Int64.toInt_ofInt_of_le ?_ ?_
    · unfold Iom.appendSize
      split <;> omega
    · unfold Iom.appendSize
      split <;> omega
  rw [append_inode ho ht hst, hval, Iom.appendSize, hft]
  split <;> omega

/-- An append is right exactly under its conditions. -/
theorem bytesWritten_append_iff (hsize : 1 ≤ size) (hin : offset + size ≤ 2^31) (hle : v.iSize.toInt ≤ offset) :
    m.BytesWritten v buf size offset m' (m.sbi.fileTable fid).ino.toNat ↔ m.AppendExact fid v size offset a := by
  have hinode := append_inode ho ht hst
  have hbytes : ∀ j, m'.dev.bytes (a + j) = splice m.dev.bytes (a + offset) size buf (a + j) :=
    fun j => append_bytes ho ht hst
  have hsizes := append_size ho ht hst hsize hin hle
  have hdata : m'.dataAddr (m.sbi.fileTable fid).ino.toNat = (x.iBlocks 0).toNat := by
    rw [Iom.dataAddr, hinode]
  have hgap : ∀ j < offset, m'.dev.bytes (a + j) = m.dev.bytes (a + j) := fun j hj => by
    rw [hbytes, splice_outside (by omega)]
  cases ht with
  | own hz =>
    constructor
    · intro h
      refine ⟨fun h0 => absurd h0 hz,hsizes.mp h.size,fun j hlo hj => ?_⟩
      rw [← hgap j hj, ← hdata]
      exact h.gap j hlo hj
    · intro h
      refine ⟨fun _ => hdata,fun h0 => absurd h0 hz,fun j hj => ?_,fun j hj hout => ?_,fun j hlo hj => ?_,
        hsizes.mpr h.handle⟩
      · rw [hdata, hbytes, ← Nat.add_assoc, splice_shift hj]
      · rw [hdata, hbytes, splice_outside (by omega)]
      · rw [hdata, hgap j hj]
        exact h.gap j hlo hj
  | taken b hz hb =>
    have hz0 : v.iSize.toInt = 0 := by rw [hz]; rfl
    have hblock : m'.dataAddr (m.sbi.fileTable fid).ino.toNat = (UInt32.ofNat (m.blockAddr b)).toNat := by
      rw [hdata]
      exact congrArg UInt32.toNat (Function.update_self (β := fun _ => UInt32) 0 _ v.iBlocks)
    have hbit : ∀ q, m'.dbit q = (decide (q = b) || m.dbit q) := fun q => by
      rw [hst.dbit]
      exact bit_setBit (m := m.dbmap)
    constructor
    · intro h
      obtain ⟨b',hclear,hset,haddr⟩ := h.taken hz
      have hb' : b' = b := by
        by_contra hne
        rw [hbit, hclear, decide_eq_false hne] at hset
        cases hset
      have hlt : m.blockAddr b < 2^32 := by
        rw [← hb', ← haddr, hblock]
        exact UInt32.toNat_lt _
      refine ⟨fun _ => hlt,hsizes.mp h.size,fun j hlo hj => ?_⟩
      have hzero := h.gap j hlo hj
      rw [haddr, hb'] at hzero
      rw [← hgap j hj]
      exact hzero
    · intro h
      have haddr : m'.dataAddr (m.sbi.fileTable fid).ino.toNat = m.blockAddr b :=
        hblock.trans (UInt32.toNat_ofNat_of_lt' (h.addr hz))
      refine ⟨fun hn => absurd hz hn,fun _ => ⟨b,hb.clear,?_,haddr⟩,fun j hj => ?_,fun j hj _ => ?_,fun j hlo hj => ?_,
        hsizes.mpr h.handle⟩
      · rw [hbit, decide_eq_true rfl, Bool.true_or]
      · rw [haddr]
        refine (hbytes _).trans ?_
        rw [← Nat.add_assoc]
        exact splice_shift hj
      · omega
      · rw [haddr]
        exact (hgap j hj).trans (h.gap j hlo hj)

end Append

/-! ## A copy -/

/-- `strncpy` copies a whole buffer exactly when no byte follows a NUL. -/
theorem strncpyBuf_eq_iff :
    (∀ i < size, strncpyBuf buf size i = buf i) ↔ ∀ i < size, buf i ≠ 0 → ∀ j < i, buf j ≠ 0 := by
  constructor
  · intro h i hi hne j hj
    have hcopy := h i hi
    unfold strncpyBuf at hcopy
    by_cases hc : i < size ∧ ∀ j ≤ i, buf j ≠ 0
    · exact hc.2 j hj.le
    · rw [if_neg hc] at hcopy
      exact absurd hcopy.symm hne
  · intro h i hi
    unfold strncpyBuf
    by_cases hz : buf i = 0
    · rw [if_neg (fun hc => hc.2 i le_rfl hz), hz]
    · refine if_pos ⟨hi,fun j hj => ?_⟩
      rcases Nat.lt_or_eq_of_le hj with hlt | rfl
      · exact h i hi hz j hlt
      · exact hz

section Copy
variable (ho : m.FileOpen fid v)
  (hst : ((m.seekFile fid offset).overwriteData fid buf size offset (v.iBlocks 0).toNat).StoresRecord
    { v with iSize := Int64.ofInt (size : ℕ) } m')
include ho hst

theorem copy_inode : m'.inode (m.sbi.fileTable fid).ino.toNat = { v with iSize := Int64.ofInt (size : ℕ) } := by
  have hk : (m.sbi.fileTable fid).ino.toNat = v.iIno.toNat := by rw [ho.self]
  rw [hk]
  exact (hst.inode _).trans (Function.update_self ..)

theorem copy_bytes (hz : v.iSize ≠ 0) {j : ℕ} : m'.dev.bytes ((v.iBlocks 0).toNat + j) =
    splice m.dev.bytes ((v.iBlocks 0).toNat + offset) m.clusterSize (strncpyBuf buf size) ((v.iBlocks 0).toNat + j) := by
  have ha := ho.data hz
  have hcs : ((m.seekFile fid offset).overwriteData fid buf size offset (v.iBlocks 0).toNat).clusterSize =
      m.clusterSize := rfl
  rw [hst.bytes (not_mem_metadata (by omega))]
  rfl

/-- A copy is right exactly under its conditions. -/
theorem bytesWritten_copy_iff (hin : offset + size ≤ m.clusterSize) (hcs : m.clusterSize < 2^31)
    (hlt : offset < v.iSize.toInt) :
    ((m.clusterSize : ℤ) = size ∧ m.BytesWritten v buf size offset m' (m.sbi.fileTable fid).ino.toNat) ↔
      m.CopyExact v buf size offset := by
  have hz : v.iSize ≠ 0 := size_ne_zero hlt
  have hinode := copy_inode ho hst
  have hbytes : ∀ j, m'.dev.bytes ((v.iBlocks 0).toNat + j) = _ := fun j => copy_bytes ho hst hz
  have hdata : m'.dataAddr (m.sbi.fileTable fid).ino.toNat = (v.iBlocks 0).toNat := by
    rw [Iom.dataAddr, hinode]
  have hsize : (m'.inode (m.sbi.fileTable fid).ino.toNat).iSize.toInt = (size : ℕ) := by
    rw [hinode]
    exact Int64.toInt_ofInt_of_le (by omega) (by omega)
  constructor
  · rintro ⟨hw,h⟩
    have hstart : offset = 0 := by omega
    have hfits := h.size
    rw [hsize] at hfits
    subst hstart
    refine ⟨rfl,by omega,by omega,strncpyBuf_eq_iff.mp (fun i hi => ?_)⟩
    rw [← h.window i hi, hdata, Nat.zero_add, hbytes]
    exact (splice_shift (by omega)).symm
  · rintro ⟨hstart,hwhole,hfits,htext⟩
    subst hstart
    refine ⟨by omega,fun _ => hdata,fun h0 => absurd h0 hz,fun j hj => ?_,fun j hj hout => ?_,fun j hlo hj => ?_,?_⟩
    · rw [hdata, Nat.zero_add, hbytes, ← strncpyBuf_eq_iff.mpr htext j hj]
      exact splice_shift (by omega)
    · rw [hdata, hbytes]
      exact splice_outside (by omega)
    · omega
    · rw [hsize]
      omega

end Copy

/-! ## Every write inside the block -/

section Contract
variable (hm : s.iom.Mounted) (ho : s.iom.FileOpen fid v) (hsize : 1 ≤ size) (hin : offset + size ≤ s.iom.clusterSize)
include hm ho hsize hin

/-- What the contract says of a run that nothing disturbs is already the condition. -/
theorem writeExact_of_writesBytes : WritesBytes s fid v buf size offset → s.iom.WriteExact fid v buf size offset := by
  have hcs := hm.cluster_le
  intro h
  refine ⟨fun hle m1 x a ht => ?_,fun hlt => ?_⟩
  · have hwp : wp False (doWrite fid buf size offset) (fun r s' => (0 ≤ r → r = size ∧
        s.iom.BytesWritten v buf size offset s'.iom (s.iom.sbi.fileTable fid).ino.toNat) →
        s.iom.AppendExact fid v size offset a) quietEnv s := by
      refine wp_doWrite_within hm ho hsize hin (fun hn => hn ⟨quietEnv_nominal,by decide,ht.takes⟩)
        (fun _ hn => absurd quietEnv_nominal hn) (fun s' m2 y a' ht' _ hst hw => ?_)
        (fun _ hlt _ _ => absurd hle (Int.not_le.mpr hlt))
      obtain ⟨m3,ht3⟩ := writeTarget_seekFile.mp ⟨m2,ht'⟩
      rw [ht.unique ht3]
      exact (bytesWritten_append_iff ho ht' hst hsize (by omega) hle).mp (hw (Int.natCast_nonneg _)).2
    obtain ⟨r,s',hrun,hP⟩ := wp_false.mp hwp
    exact hP (h _ r s' hrun)
  · have hz : v.iSize ≠ 0 := size_ne_zero hlt
    have hwp : wp False (doWrite fid buf size offset) (fun r s' => (0 ≤ r → r = size ∧
        s.iom.BytesWritten v buf size offset s'.iom (s.iom.sbi.fileTable fid).ino.toNat) →
        s.iom.CopyExact v buf size offset) quietEnv s :=
      wp_doWrite_within hm ho hsize hin (fun hn => hn ⟨quietEnv_nominal,by decide,fun h0 => absurd h0 hz⟩)
        (fun _ hn => absurd quietEnv_nominal hn) (fun _ _ _ _ _ hle _ _ => absurd hle (Int.not_le.mpr hlt))
        (fun s' _ hst hw => (bytesWritten_copy_iff ho hst hin (by omega) hlt).mp (hw (Int.natCast_nonneg _)))
    obtain ⟨r,s',hrun,hP⟩ := wp_false.mp hwp
    exact hP (h _ r s' hrun)

theorem writesBytes_of_writeExact : s.iom.WriteExact fid v buf size offset → WritesBytes s fid v buf size offset := by
  have hcs := hm.cluster_le
  rintro ⟨happend,hcopy⟩ e r s' hrun
  refine (wp_doWrite_within (u := True) (Q := fun r s' => 0 ≤ r → r = size ∧
    s.iom.BytesWritten v buf size offset s'.iom (s.iom.sbi.fileTable fid).ino.toNat) hm ho hsize hin
    (fun _ => trivial) (fun _ _ hr => absurd hr (by decide)) (fun s' m1 x a ht hle hst _ => ⟨rfl,?_⟩)
    (fun s' hlt hst _ => ?_)).elim hrun
  · obtain ⟨m2,ht2⟩ := writeTarget_seekFile.mp ⟨m1,ht⟩
    exact (bytesWritten_append_iff ho ht hst hsize (by omega) hle).mpr (happend hle m2 x a ht2)
  · exact (bytesWritten_copy_iff ho hst hin (by omega) hlt).mpr (hcopy hlt)

/-- A write inside the block is an update of a byte array exactly under these conditions. -/
theorem do_write_bytes_iff : WritesBytes s fid v buf size offset ↔ s.iom.WriteExact fid v buf size offset :=
  ⟨writeExact_of_writesBytes hm ho hsize hin,writesBytes_of_writeExact hm ho hsize hin⟩

end Contract

/-! ## A file of two bytes -/

/-- What is compared of a mounted volume and its handle 3, which is open on record 3. -/
def Iom.SecondFile (m : Iom) : Prop :=
  (m.sbi.fileTable 3).used = true ∧ (m.sbi.fileTable 3).ino = 3 ∧ (m.sbi.fileTable 3).size = 2 ∧ m.ibit 3 = true ∧
    (m.inode 3).iType = lab4TypeFile ∧ (m.inode 3).iIno = 3 ∧ (m.inode 3).iSize.toInt = 2 ∧
    4 * m.clusterSize ≤ ((m.inode 3).iBlocks 0).toNat ∧ m.clusterSize = 4096

instance (m : Iom) : Decidable m.SecondFile := inferInstanceAs (Decidable (_ ∧ _))

theorem Iom.SecondFile.fileOpen (h : m.SecondFile) : m.FileOpen 3 (m.inode 3) := by
  obtain ⟨hused,hino,hsize,hbit,htype,hself,_,hdata,hcs⟩ := h
  have hnat : (m.sbi.fileTable 3).ino.toNat = 3 := by
    rw [hino]
    rfl
  have hnum : m.inodeNum = 32 := by
    rw [Iom.inodeNum, hcs]
    rfl
  exact ⟨⟨by decide,by omega,by omega,by rw [hnat]⟩,hused,by rw [hnat]; exact hbit,htype,hself.trans hino.symm,
    fun _ => hdata,by omega,by omega⟩

set_option maxRecDepth 100000 in
theorem writeNewFile_opens : ∃ s1, writeNewFile quietEnv (blankDisk 80) = some (2,s1) ∧ s1.iom.Mounted ∧ s1.iom.SecondFile := by
  have hcomputed : (writeNewFile quietEnv (blankDisk 80)).map (fun p => (p.1,decide p.2.iom.Mounted,
      decide p.2.iom.SecondFile)) = some (2,true,true) := by
    decide +kernel
  obtain ⟨⟨r,s1⟩,hrun,hp⟩ := Option.map_eq_some_iff.mp hcomputed
  simp only [Prod.mk.injEq, decide_eq_true_eq] at hp
  obtain ⟨rfl,hm,hfile⟩ := hp
  exact ⟨s1,hrun,hm,hfile⟩

/-- A byte behind the end of the file is appended. -/
theorem do_write_bytes_newFile : ∃ s1, writeNewFile quietEnv (blankDisk 80) = some (2,s1) ∧
    WritesBytes s1 3 (s1.iom.inode 3) zeros 1 2 := by
  obtain ⟨s1,hrun,hm,hfile⟩ := writeNewFile_opens
  obtain ⟨_,_,hft,_,_,_,hsize,_,hcs⟩ := id hfile
  refine ⟨s1,hrun,(do_write_bytes_iff hm hfile.fileOpen le_rfl (by omega)).mpr ⟨fun _ m1 x a _ => ?_,fun hlt => by omega⟩⟩
  exact ⟨fun h0 => (by rw [h0] at hsize; cases hsize),by omega,fun j hlo hj => by omega⟩

/-- The first byte is replaced together with the whole cluster. -/
theorem do_write_returns_cluster : ∃ s1, writeNewFile quietEnv (blankDisk 80) = some (2,s1) ∧ s1.iom.Mounted ∧
    s1.iom.FileOpen 3 (s1.iom.inode 3) ∧ 0 + 1 ≤ s1.iom.clusterSize ∧ ¬WritesBytes s1 3 (s1.iom.inode 3) twoBytes 1 0 := by
  obtain ⟨s1,hrun,hm,hfile⟩ := writeNewFile_opens
  obtain ⟨_,_,_,_,_,_,hsize,_,hcs⟩ := id hfile
  refine ⟨s1,hrun,hm,hfile.fileOpen,by omega,fun h => ?_⟩
  have hwhole := ((writeExact_of_writesBytes hm hfile.fileOpen le_rfl (by omega) h).2 (by omega)).whole
  omega

end SimpleFS
