import SimpleFS.Consistency
import SimpleFS.Write
import SimpleFS.Machine.Loop

/-! # When the loop of `do_write` ends

A round writes the rest of the cluster behind `offset`, cut to what is left. Behind the last byte of the
cluster there is no rest: the round takes nothing off what is left, and so does the next one. A round that
overwrites copies the text to a buffer as large as the cluster first, whatever is left.
-/
namespace SimpleFS
open Bytes Machine Prog Relation

variable {e : Env} {s s' : Sys} {fid offset size : ℕ} {buf : Mem} {blocknr : ℤ}

/-! ## The loop -/

/-- What changes from one round of `do_write` to the next. -/
structure WriteState where
  size : ℕ
  inode : Inode
  wByte : ℤ

/-- The loop condition; the result is that of `writeLoop`. -/
def writeDone (c : WriteState) : Option (Option (Inode × ℤ)) :=
  if c.size = 0 then some (some (c.inode,c.wByte)) else none

/-- The body of the loop; an error is the jump to the error label. -/
def writeRound (fid : ℕ) (buf : Mem) (offset : ℕ) (blocknr : ℤ) (c : WriteState) :
    M (Except (Option (Inode × ℤ)) WriteState) := do
  let m ← getIom
  let clusterSize := m.clusterSize
  let ft := m.sbi.fileTable fid
  let curRemain := toU32 (clusterSize - offset)
  let curRemain := if curRemain > c.size then c.size else curRemain
  if c.inode.iSize.toInt ≤ ft.rwoffset then
    let wByte ← pwrite buf curRemain blocknr
    if wByte = lab4Error then return .error none
    let rwoffset := ft.rwoffset + curRemain
    let ftSize := if rwoffset > ft.size then rwoffset else ft.size
    modifyIom (fun m => m.setFile fid { ft with rwoffset := rwoffset, size := ftSize })
    return .ok ⟨c.size - curRemain,{ c.inode with iSize := Int64.ofInt ftSize },wByte⟩
  else
    if !(← malloc) then undefined
    else
      let wByte ← pwrite (strncpyBuf buf c.size) clusterSize blocknr
      if wByte = lab4Error then return .error none
      modifyIom (fun m => m.setFile fid { ft with rwoffset := curRemain, size := curRemain })
      return .ok ⟨c.size - curRemain,{ c.inode with iSize := Int64.ofInt curRemain },wByte⟩

theorem writeLoop_eq (fuel : ℕ) (c : WriteState) :
    writeLoop fid buf offset blocknr fuel c.size c.inode c.wByte =
      whileLoop writeDone (writeRound fid buf offset blocknr) fuel c := by
  induction fuel generalizing c with
  | zero =>
    rw [writeLoop, whileLoop]
    unfold writeDone
    split <;> rfl
  | succ fuel ih =>
    rw [writeLoop, whileLoop]
    unfold writeDone
    split
    · rfl
    · funext e s
      dsimp only
      unfold writeRound
      by_cases hgrow : c.inode.iSize.toInt ≤ (s.iom.sbi.fileTable fid).rwoffset
      · simp only [bind_apply, getIom, Option.bind_some, if_pos hgrow, Option.bind_assoc]
        refine Option.bind_congr ?_
        rintro ⟨wByte,s1⟩ _
        by_cases herr : wByte = lab4Error
        · simp only [if_pos herr]
          rfl
        · simp only [if_neg herr]
          exact congrFun (congrFun (ih ⟨_,_,_⟩) e) _
      · simp only [bind_apply, getIom, Option.bind_some, if_neg hgrow, malloc]
        cases e.mallocFails s.clock with
        | true => rfl
        | false =>
          simp only [Bool.not_false, Bool.not_true, Bool.false_eq_true, ↓reduceIte, bind_apply, Option.bind_assoc]
          refine Option.bind_congr ?_
          rintro ⟨wByte,s1⟩ _
          by_cases herr : wByte = lab4Error
          · simp only [if_pos herr]
            rfl
          · simp only [if_neg herr]
            exact congrFun (congrFun (ih ⟨_,_,_⟩) e) _

/-! ## The way to the loop -/

/-- `do_write` up to its loop: the record and the block address, or the value it returns at once. -/
def writeEntry (fid offset : ℕ) : M (Except ℤ (Inode × ℤ)) := do
  let m ← getIom
  if maxOpenFile ≤ fid then undefined
  else
    modifyIom (fun m => m.setFile fid { m.sbi.fileTable fid with rwoffset := offset })
    match ← doReadInode (m.sbi.fileTable fid).ino with
    | none => return .error lab4Error
    | some inode =>
      if inode.iSize = 0 then
        let (res,blocknrInbmap) ← allocBlockInbmap
        if res = lab4Error then
          let _ ← restoreDbmap
          return .error lab4Error
        return .ok ({ inode with iBlocks := Function.update inode.iBlocks 0 (m.writeAddr blocknrInbmap) },
          m.writeBlocknr blocknrInbmap)
      else return .ok (inode,inode.blocknrLong)

theorem doWrite_eq : doWrite fid buf size offset = (do
    match ← writeEntry fid offset with
    | .error res => return res
    | .ok (inode,blocknr) => writeBlock fid buf size offset inode blocknr) := by
  funext e s
  unfold doWrite writeEntry
  by_cases hfid : maxOpenFile ≤ fid
  · simp only [bind_apply, getIom, Option.bind_some, if_pos hfid]
    rfl
  · simp only [bind_apply, getIom, Option.bind_some, if_neg hfid, Option.bind_assoc]
    refine Option.bind_congr ?_
    rintro ⟨_,s1⟩ _
    refine Option.bind_congr ?_
    rintro ⟨inode,s2⟩ _
    cases inode with
    | none => rfl
    | some inode =>
      by_cases hsize : inode.iSize = 0
      · simp only [if_pos hsize, bind_apply, Option.bind_assoc]
        refine Option.bind_congr ?_
        rintro ⟨⟨res,b⟩,s3⟩ _
        by_cases herr : res = lab4Error
        · simp only [if_pos herr, bind_apply, Option.bind_assoc]
          rfl
        · simp only [if_neg herr]
          rfl
      · simp only [if_neg hsize]
        rfl

theorem allocBlockInbmap_frame : wp True allocBlockInbmap
    (fun _ s' => s'.iom.sbi.fileTable = s.iom.sbi.fileTable ∧ s'.iom.clusterSize = s.iom.clusterSize) e s := by
  unfold allocBlockInbmap scanAllocateDbmap
  rw [wp_bind, wp_bind, wp_getIom]
  cases s.iom.iomBufDbmap with
  | none =>
    rw [wp_undefined]
    trivial
  | some b =>
    dsimp only
    rw [wp_bind, wp_lift]
    refine ⟨fun _ => trivial,fun p _ => ?_⟩
    obtain ⟨found,k⟩ := p
    rw [wp_ite]
    refine ⟨fun _ => ?_,fun _ => ?_⟩
    · rw [wp_bind, wp_setIom, wp_bind]
      refine wp_bumpFreeBlocks (fun _ => trivial) (fun s1 _ h1 => ?_)
      rw [wp_pure]
      dsimp only
      rw [if_neg (by decide), wp_pure, h1]
      exact ⟨rfl,rfl⟩
    · rw [wp_bind, wp_setIom, wp_pure]
      dsimp only
      rw [if_pos rfl, wp_pure]
      exact ⟨rfl,rfl⟩

theorem setFile_fileTable_self {m : Iom} {ft : FileTable} : (m.setFile fid ft).sbi.fileTable fid = ft := by
  unfold Iom.setFile
  exact Function.update_self ..

/-- On the way to the loop the file position is set and the cluster size stays. -/
theorem wp_writeEntry : wp True (writeEntry fid offset) (fun r s' => ∀ p, r = .ok p →
    (s'.iom.sbi.fileTable fid).rwoffset = offset ∧ (s'.iom.sbi.fileTable fid).size = (s.iom.sbi.fileTable fid).size ∧
      s'.iom.clusterSize = s.iom.clusterSize) e s := by
  unfold writeEntry
  rw [wp_bind, wp_getIom]
  dsimp only
  rw [wp_ite]
  refine ⟨fun _ => by rw [wp_undefined]; trivial,fun _ => ?_⟩
  rw [wp_bind, wp_modifyIom, wp_bind]
  have hread : ∀ s1 : Sys, s1.iom = s.iom.setFile fid { s.iom.sbi.fileTable fid with rwoffset := offset } →
      (s1.iom.sbi.fileTable fid).rwoffset = offset ∧ (s1.iom.sbi.fileTable fid).size = (s.iom.sbi.fileTable fid).size ∧
        s1.iom.clusterSize = s.iom.clusterSize := fun s1 h1 => by
    rw [h1, setFile_fileTable_self]
    exact ⟨rfl,rfl,rfl⟩
  refine wp_doReadInode (fun s1 _ _ => ?_) (fun _ _ => trivial) (fun s1 h1 _ _ => ?_)
  · rw [wp_pure]
    intro p hp
    cases hp
  · dsimp only
    rw [wp_ite]
    refine ⟨fun _ => ?_,fun _ => ?_⟩
    · rw [wp_bind]
      refine allocBlockInbmap_frame.mono ?_
      rintro ⟨res,b⟩ s2 ⟨h2,h2'⟩
      dsimp only
      rw [wp_ite]
      refine ⟨fun _ => ?_,fun _ => ?_⟩
      · rw [wp_bind, wp_true]
        intro _ s3 _
        rw [wp_pure]
        intro p hp
        cases hp
      · rw [wp_pure]
        intro _ _
        rw [h2, h2']
        exact hread s1 h1
    · rw [wp_pure]
      exact fun _ _ => hread s1 h1

/-! ## Rounds -/

/-- The number of bytes a round takes off `size`. -/
def roundSize (clusterSize offset size : ℕ) : ℕ := min (toU32 (clusterSize - offset)) size

theorem roundSize_pos {cs : ℕ} (hcs : cs < 2^32) (hoff : offset < 2^32) (hne : offset ≠ cs) (hsize : size ≠ 0) :
    0 < roundSize cs offset size := by
  have hpos : 0 < toU32 (cs - offset) := by
    rcases Nat.lt_or_gt_of_ne hne with h | h
    · rw [curRemain_eq h.le hcs]
      omega
    · unfold toU32
      rw [BitVec.toNat_ofInt]
      omega
  unfold roundSize
  omega

theorem roundSize_self {cs : ℕ} : roundSize cs cs size = 0 := by
  unfold roundSize
  rw [sub_self]
  exact Nat.zero_min size

/-- The number of bytes of the round, as the source computes it. -/
theorem roundSize_eq (cs offset size : ℕ) :
    (if toU32 (cs - offset) > size then size else toU32 (cs - offset)) = roundSize cs offset size := by
  unfold roundSize
  split <;> omega

/-- Only the largest count is taken for an error. -/
theorem toS32_ne_error_of_lt {n : ℕ} (h : n < 2^32 - 1) : toS32 n ≠ lab4Error := by
  unfold toS32 lab4Error
  rw [BitVec.toInt_ofInt, Int.bmod_def]
  omega

/-- The size an append of `n` bytes leaves in a handle. -/
def FileTable.grownSize (ft : FileTable) (n : ℕ) : ℤ := if ft.rwoffset + n > ft.size then ft.rwoffset + n else ft.size

section Round
variable {u : Prop} {c : WriteState} {n : ℕ} {Q : Except (Option (Inode × ℤ)) WriteState → Sys → Prop}

theorem writeDone_none (h : c.size ≠ 0) : writeDone c = none := if_neg h

theorem writeDone_some (h : c.size = 0) : writeDone c = some (some (c.inode,c.wByte)) := if_pos h

theorem writeDone_eq_none (h : writeDone c = none) : c.size ≠ 0 := by
  intro h0
  rw [writeDone, if_pos h0] at h
  cases h

/-- A round that appends. -/
theorem wp_appendRound (hgrow : c.inode.iSize.toInt ≤ (s.iom.sbi.fileTable fid).rwoffset)
    (hn : roundSize s.iom.clusterSize offset c.size = n)
    (hfail : blocknr < 0 ∨ e.ioFails s.clock = true → Q (.error none) s.next)
    (hlost : ∀ s', 0 ≤ blocknr → e.ioFails s.clock = false → toS32 n = lab4Error →
      s'.iom = s.iom.writeDev blocknr.toNat n buf → Q (.error none) s')
    (hok : ∀ s', 0 ≤ blocknr → e.ioFails s.clock = false → s'.clock = s.clock + 1 →
      s'.iom = (s.iom.writeDev blocknr.toNat n buf).setFile fid { s.iom.sbi.fileTable fid with
        rwoffset := (s.iom.sbi.fileTable fid).rwoffset + n, size := (s.iom.sbi.fileTable fid).grownSize n } →
      Q (.ok ⟨c.size - n,{ c.inode with iSize := Int64.ofInt ((s.iom.sbi.fileTable fid).grownSize n) },toS32 n⟩) s') :
    wp u (writeRound fid buf offset blocknr c) Q e s := by
  unfold writeRound
  rw [wp_bind, wp_getIom]
  dsimp only
  rw [roundSize_eq, hn, if_pos hgrow, wp_bind, wp_pwrite]
  refine ⟨fun hf => ?_,fun hf => ?_⟩
  · rw [if_pos rfl, wp_pure]
    exact hfail hf
  · push Not at hf
    have hio : e.ioFails s.clock = false := by simpa using hf.2
    rw [wp_ite, wp_pure, wp_bind, wp_modifyIom, wp_pure]
    exact ⟨fun hl => hlost _ hf.1 hio hl rfl,fun _ => hok _ hf.1 hio rfl rfl⟩

/-- A round that replaces the cluster by a copy of the text of the buffer. -/
theorem wp_copyRound (hcs : s.iom.clusterSize < 2^31) (hgrow : (s.iom.sbi.fileTable fid).rwoffset < c.inode.iSize.toInt)
    (hn : roundSize s.iom.clusterSize offset c.size = n) (hu : e.mallocFails s.clock = true → u)
    (hfail : ∀ s', e.mallocFails s.clock = false → blocknr < 0 ∨ e.ioFails (s.clock + 1) = true → s'.iom = s.iom →
      Q (.error none) s')
    (hok : ∀ s', e.mallocFails s.clock = false → 0 ≤ blocknr → e.ioFails (s.clock + 1) = false → s'.clock = s.clock + 2 →
      s'.iom = (s.iom.writeDev blocknr.toNat s.iom.clusterSize (strncpyBuf buf c.size)).setFile fid
        { s.iom.sbi.fileTable fid with rwoffset := n, size := n } →
      Q (.ok ⟨c.size - n,{ c.inode with iSize := Int64.ofInt n },(s.iom.clusterSize : ℕ)⟩) s') :
    wp u (writeRound fid buf offset blocknr c) Q e s := by
  unfold writeRound
  rw [wp_bind, wp_getIom]
  dsimp only
  rw [roundSize_eq, hn, if_neg (Int.not_le.mpr hgrow), wp_bind, wp_malloc, wp_ite, wp_undefined]
  refine ⟨fun hf => hu (by simpa using hf),fun hf => ?_⟩
  have hmal : e.mallocFails s.clock = false := by simpa using hf
  rw [wp_bind, wp_pwrite]
  refine ⟨fun hf => ?_,fun hf => ?_⟩
  · rw [if_pos rfl, wp_pure]
    exact hfail _ hmal hf rfl
  · push Not at hf
    have hio : e.ioFails (s.clock + 1) = false := Bool.eq_false_iff.mpr hf.2
    rw [if_neg (toS32_ne_error (by omega)), wp_bind, wp_modifyIom, wp_pure, toS32_natCast (by omega)]
    exact hok _ hmal hf.1 hio rfl rfl

/-- What a round that takes `n` bytes off leaves of the record and the handle. -/
inductive RoundEffect (e : Env) (fid n : ℕ) (blocknr : ℤ) (c : WriteState) (s : Sys) (c' : WriteState) (s' : Sys) : Prop
  | append (hgrow : c.inode.iSize.toInt ≤ (s.iom.sbi.fileTable fid).rwoffset) (hblock : 0 ≤ blocknr)
      (hio : e.ioFails s.clock = false) (hclock : s'.clock = s.clock + 1)
      (hino : c'.inode.iSize = Int64.ofInt ((s.iom.sbi.fileTable fid).grownSize n))
      (hrw : (s'.iom.sbi.fileTable fid).rwoffset = (s.iom.sbi.fileTable fid).rwoffset + n)
      (hft : (s'.iom.sbi.fileTable fid).size = (s.iom.sbi.fileTable fid).grownSize n)
  | copy (hgrow : (s.iom.sbi.fileTable fid).rwoffset < c.inode.iSize.toInt) (hmal : e.mallocFails s.clock = false)
      (hino : c'.inode.iSize = Int64.ofInt n) (hrw : (s'.iom.sbi.fileTable fid).rwoffset = n)
      (hft : (s'.iom.sbi.fileTable fid).size = n)

/-- A round that gets to its end takes its share off `size`. -/
theorem round_effect {p q : WriteState × Sys} (hcs : p.2.iom.clusterSize < 2^31)
    (h : Round writeDone (writeRound fid buf offset blocknr) e p q) :
    p.1.size ≠ 0 ∧ q.1.size = p.1.size - roundSize p.2.iom.clusterSize offset p.1.size ∧
      q.2.iom.clusterSize = p.2.iom.clusterSize ∧
      RoundEffect e fid (roundSize p.2.iom.clusterSize offset p.1.size) blocknr p.1 p.2 q.1 q.2 := by
  obtain ⟨c,s⟩ := p
  obtain ⟨hne,hrun⟩ := h
  refine ⟨writeDone_eq_none hne,?_⟩
  have hwp : wp True (writeRound fid buf offset blocknr c) (fun r s' => ∀ c', r = .ok c' →
      c'.size = c.size - roundSize s.iom.clusterSize offset c.size ∧ s'.iom.clusterSize = s.iom.clusterSize ∧
      RoundEffect e fid (roundSize s.iom.clusterSize offset c.size) blocknr c s c' s') e s := by
    by_cases hgrow : c.inode.iSize.toInt ≤ (s.iom.sbi.fileTable fid).rwoffset
    · refine wp_appendRound hgrow rfl (fun _ _ hc => (by cases hc)) (fun _ _ _ _ _ _ hc => (by cases hc))
        (fun s1 hblock hio hclock h1 c' hc => ?_)
      cases hc
      refine ⟨rfl,by rw [h1]; rfl,.append hgrow hblock hio hclock rfl ?_ ?_⟩ <;> rw [h1, setFile_fileTable_self]
    · refine wp_copyRound hcs (Int.not_le.mp hgrow) rfl (fun _ => trivial) (fun _ _ _ _ _ hc => (by cases hc))
        (fun s1 hmal _ _ _ h1 c' hc => ?_)
      cases hc
      refine ⟨rfl,by rw [h1]; rfl,.copy (Int.not_le.mp hgrow) hmal rfl ?_ ?_⟩ <;> rw [h1, setFile_fileTable_self]
  exact hwp.elim hrun q.1 rfl

/-- A call of a round that keeps it from its end fails. -/
def WriteStops (e : Env) (s : Sys) (offset : ℕ) (blocknr : ℤ) (c : WriteState) : Prop :=
  if c.inode.iSize.toInt ≤ offset then blocknr < 0 ∨ e.ioFails s.clock = true
  else e.mallocFails s.clock = true ∨ blocknr < 0 ∨ e.ioFails (s.clock + 1) = true

/-- A round from the loop condition goes on unless one of its calls stops it. -/
theorem writeRound_goes_on (hcs : s.iom.clusterSize < 2^31) (hoff : offset = s.iom.clusterSize)
    (hrw : (s.iom.sbi.fileTable fid).rwoffset = offset) (h : ¬WriteStops e s offset blocknr c) :
    ∃ c' s', writeRound fid buf offset blocknr c e s = some (.ok c',s') := by
  have hn : roundSize s.iom.clusterSize offset c.size = 0 := by rw [hoff, roundSize_self]
  have hrun : wp False (writeRound fid buf offset blocknr c) (fun r _ => ∃ c', r = .ok c') e s := by
    unfold WriteStops at h
    by_cases hgrow : c.inode.iSize.toInt ≤ offset
    · rw [if_pos hgrow] at h
      exact wp_appendRound (hrw ▸ hgrow) hn (fun hf => absurd hf h) (fun _ _ _ hl _ => absurd hl (by decide))
        (fun _ _ _ _ _ => ⟨_,rfl⟩)
    · rw [if_neg hgrow, not_or] at h
      exact wp_copyRound hcs (hrw ▸ Int.not_le.mp hgrow) hn (fun hf => h.1 hf) (fun _ _ hf _ => absurd hf h.2)
        (fun _ _ _ _ _ _ => ⟨_,rfl⟩)
  obtain ⟨_,s',hr,c',rfl⟩ := wp_false.mp hrun
  exact ⟨c',s',hr⟩

/-- A failing call leaves the loop. -/
theorem writeRound_stops (hcs : s.iom.clusterSize < 2^31) (hrw : (s.iom.sbi.fileTable fid).rwoffset = offset)
    (h : WriteStops e s offset blocknr c) :
    wp True (writeRound fid buf offset blocknr c) (fun r _ => ∀ c', r ≠ .ok c') e s := by
  unfold WriteStops at h
  by_cases hgrow : c.inode.iSize.toInt ≤ offset
  · rw [if_pos hgrow] at h
    refine wp_appendRound (hrw ▸ hgrow) rfl (fun _ _ => nofun) (fun _ _ _ _ _ _ => nofun) (fun _ hblock hio _ _ => ?_)
    rcases h with h | h
    · omega
    · cases h.symm.trans hio
  · rw [if_neg hgrow] at h
    refine wp_copyRound hcs (hrw ▸ Int.not_le.mp hgrow) rfl (fun _ => trivial) (fun _ _ _ _ _ => nofun)
      (fun _ hmal hblock hio _ _ => ?_)
    rcases h with h | h | h
    · cases h.symm.trans hmal
    · omega
    · cases h.symm.trans hio

end Round

/-! ## Copies that are too long -/

/-- The number of bytes a full round takes off `size`. -/
def Iom.fullRound (m : Iom) (offset : ℕ) : ℕ := toU32 (m.clusterSize - offset)

/-- The next round copies more bytes to its buffer than that holds. -/
def CopyOverruns (e : Env) (fid : ℕ) (p : WriteState × Sys) : Prop :=
  (p.2.iom.sbi.fileTable fid).rwoffset < p.1.inode.iSize.toInt ∧ e.mallocFails p.2.clock = false ∧
    ¬(writeCopy p.2.iom p.1.size).Inside

/-- The first round does, or the second one behind an append that leaves a larger size in the handle. -/
def WriteOverruns (e : Env) (s : Sys) (fid offset : ℕ) (blocknr : ℤ) (c : WriteState) : Prop :=
  if c.inode.iSize.toInt ≤ offset then
    0 ≤ blocknr ∧ e.ioFails s.clock = false ∧ e.mallocFails (s.clock + 1) = false ∧
      (offset + s.iom.fullRound offset : ℕ) < (s.iom.sbi.fileTable fid).size ∧ s.iom.clusterSize < c.size - s.iom.fullRound offset
  else e.mallocFails s.clock = false ∧ s.iom.clusterSize < c.size

/-- Appends that go on: what is left fits in the block, or the handle knows of no byte behind it. -/
def Appending (full : ℕ) (c : WriteState) (ft : FileTable) : Prop :=
  c.size = 0 ∨ c.inode.iSize.toInt ≤ ft.rwoffset ∧ 0 ≤ ft.rwoffset ∧ ft.rwoffset + c.size < 2^62 ∧
    (c.size ≤ full ∨ ft.size ≤ ft.rwoffset + full)

theorem Appending.round {full : ℕ} {c c' : WriteState} {ft ft' : FileTable} (h : Appending full c ft) (hne : c.size ≠ 0)
    (hsize : c'.size = c.size - min full c.size) (hino : c'.inode.iSize = Int64.ofInt (ft.grownSize (min full c.size)))
    (hrw : ft'.rwoffset = ft.rwoffset + (min full c.size : ℕ)) (hft : ft'.size = ft.grownSize (min full c.size)) :
    Appending full c' ft' := by
  obtain ⟨_,h0,hsum,hlast⟩ := h.resolve_left hne
  by_cases hle : c.size ≤ full
  · exact .inl (by omega)
  · -- a full round, behind which the handle's size is its position
    have hfull : min full c.size = full := by omega
    have hbound := hlast.resolve_left hle
    rw [hfull] at hsize hino hrw hft
    have hgrown : ft.grownSize full = ft.rwoffset + full := by
      unfold FileTable.grownSize
      split <;> omega
    have hval : (Int64.ofInt (ft.rwoffset + full)).toInt = ft.rwoffset + full :=
      Int64.toInt_ofInt_of_le (by omega) (by omega)
    refine .inr ⟨?_,by omega,by omega,.inr (by omega)⟩
    rw [hino, hgrown, hval, hrw]

/-- Behind a copy only appends are left. -/
theorem Appending.of_copy {full n : ℕ} {c : WriteState} {ft : FileTable} (hino : c.inode.iSize = Int64.ofInt n)
    (hrw : ft.rwoffset = n) (hft : ft.size = n) (hsum : n + c.size < 2^62) : Appending full c ft := by
  have hval : (Int64.ofInt (n : ℕ)).toInt = n := Int64.toInt_ofInt_of_le (by omega) (by omega)
  refine .inr ⟨?_,by omega,by omega,.inr (by omega)⟩
  rw [hino, hval, hrw]

/-- From here on every copy fits: there is none, no more than a cluster is left, or the next allocation fails. -/
def CopiesFit (e : Env) (fid full cs : ℕ) (p : WriteState × Sys) : Prop :=
  p.2.iom.clusterSize = cs ∧ (p.1.size ≤ cs ∨ Appending full p.1 (p.2.iom.sbi.fileTable fid) ∨
    (p.2.iom.sbi.fileTable fid).rwoffset < p.1.inode.iSize.toInt ∧ e.mallocFails p.2.clock = true)

section Copies
variable {c : WriteState} {t : Sys} {p q : WriteState × Sys} {full cs : ℕ}

theorem CopiesFit.inside (h : CopiesFit e fid full cs p) : ¬CopyOverruns e fid p := by
  obtain ⟨rfl,h⟩ := h
  rintro ⟨hgrow,hmal,hout⟩
  rcases h with hle | (h0 | ⟨hle,_⟩) | ⟨_,hfail⟩
  · exact hout (Copy.inside_iff.mpr hle)
  · exact hout (Copy.inside_iff.mpr (h0.trans_le (Nat.zero_le _)))
  · omega
  · cases hmal.symm.trans hfail

theorem CopiesFit.round (hcs : cs < 2^31) (hfull : full = toU32 (cs - offset)) (h : CopiesFit e fid full cs p)
    (hr : Round writeDone (writeRound fid buf offset blocknr) e p q) : CopiesFit e fid full cs q := by
  obtain ⟨rfl,h⟩ := h
  obtain ⟨hne,hsize,hq,heffect⟩ := round_effect hcs hr
  refine ⟨hq,?_⟩
  rw [roundSize, ← hfull] at hsize heffect
  rcases h with hle | happend | ⟨hgrow,hfail⟩
  · exact .inl (by omega)
  · cases heffect with
    | append _ _ _ _ hino hrw hft => exact .inr (.inl (happend.round hne hsize hino hrw hft))
    | copy hgrow _ _ _ _ => exact absurd (happend.resolve_left hne).1 (Int.not_le.mpr hgrow)
  · cases heffect with
    | append hle _ _ _ _ _ _ => exact absurd hle (Int.not_le.mpr hgrow)
    | copy _ hmal _ _ _ => cases hmal.symm.trans hfail

/-- The size of a handle that knows of bytes behind an append. -/
theorem grownSize_behind {n : ℕ} (hrw : (t.iom.sbi.fileTable fid).rwoffset = offset)
    (hhi : (t.iom.sbi.fileTable fid).size < 2^63) (hlong : (offset + n : ℕ) < (t.iom.sbi.fileTable fid).size) :
    (Int64.ofInt ((t.iom.sbi.fileTable fid).grownSize n)).toInt = (t.iom.sbi.fileTable fid).size := by
  have hgrown : (t.iom.sbi.fileTable fid).grownSize n = (t.iom.sbi.fileTable fid).size := by
    unfold FileTable.grownSize
    rw [hrw]
    exact if_neg (by omega)
  rw [hgrown]
  exact Int64.toInt_ofInt_of_le (by omega) hhi

section First
variable (hcs : t.iom.clusterSize < 2^31) (hoff : offset < 2^32) (hsize : c.size < 2^32)
  (hrw : (t.iom.sbi.fileTable fid).rwoffset = offset) (hhi : (t.iom.sbi.fileTable fid).size < 2^63)
include hcs hoff hsize hrw hhi

/-- Behind the first round every copy fits unless the second one is the one that does not. -/
theorem copiesFit_first (hno : ¬WriteOverruns e t fid offset blocknr c)
    (hr : Round writeDone (writeRound fid buf offset blocknr) e (c,t) q) :
    CopiesFit e fid (t.iom.fullRound offset) t.iom.clusterSize q := by
  obtain ⟨hne,hq,hcl,heffect⟩ := round_effect hcs hr
  obtain ⟨full,hfull⟩ : ∃ full, full = t.iom.fullRound offset := ⟨_,rfl⟩
  have hn : roundSize t.iom.clusterSize offset c.size = min full c.size := by rw [roundSize, hfull, Iom.fullRound]
  dsimp only at hq hcl heffect hne
  rw [hn] at hq heffect
  rw [← hfull]
  refine ⟨hcl,?_⟩
  cases heffect with
  | copy _ _ hino hrw' hft => exact .inr (.inl (.of_copy hino hrw' hft (by omega)))
  | append hgrow hblock hio hclock hino hrw' hft =>
    rw [hrw] at hgrow hrw'
    have hpos : 0 ≤ (q.2.iom.sbi.fileTable fid).rwoffset := by omega
    unfold WriteOverruns at hno
    rw [if_pos hgrow, ← hfull] at hno
    by_cases hle : q.1.size ≤ t.iom.clusterSize
    · exact .inl hle
    · have hmin : min full c.size = full := by omega
      rw [hmin] at hq hino hrw' hft
      by_cases hlong : (offset + full : ℕ) < (t.iom.sbi.fileTable fid).size
      · -- the record has the size of the handle, and there is no buffer for the copy
        have hval := grownSize_behind hrw hhi hlong
        by_cases hmal : e.mallocFails (t.clock + 1) = true
        · refine .inr (.inr ⟨?_,hclock ▸ hmal⟩)
          rw [hino, hval, hrw']
          omega
        · exact absurd ⟨hblock,hio,by simpa using hmal,hlong,by omega⟩ hno
      · have hgrown : (t.iom.sbi.fileTable fid).grownSize full = (offset + full : ℕ) := by
          unfold FileTable.grownSize
          rw [hrw]
          split <;> omega
        rw [hgrown] at hino hft
        refine .inr (.inl (.of_copy hino ?_ hft (by omega)))
        rw [hrw', Nat.cast_add]

/-- A copy that does not fit is made exactly where one of the first two rounds makes it. -/
theorem overruns_iff : (∃ p, ReflTransGen (Round writeDone (writeRound fid buf offset blocknr) e) (c,t) p ∧
    CopyOverruns e fid p) ↔ WriteOverruns e t fid offset blocknr c := by
  constructor
  · rintro ⟨p,hp,hover⟩
    by_contra hno
    rcases hp.cases_head with rfl | ⟨q,hq,hrest⟩
    · obtain ⟨hgrow,hmal,hout⟩ := hover
      unfold WriteOverruns at hno
      rw [if_neg (by rw [← hrw]; exact Int.not_le.mpr hgrow)] at hno
      exact hout (Copy.inside_iff.mpr (by by_contra hn; exact hno ⟨hmal,Nat.not_le.mp hn⟩))
    · exact (rounds_invariant (fun _ _ hI hr => hI.round hcs rfl hr) (copiesFit_first hcs hoff hsize hrw hhi hno hq) hrest).inside hover
  · intro h
    unfold WriteOverruns at h
    split at h
    · next hgrow =>
      obtain ⟨hblock,hio,hmal,hlong,hover⟩ := h
      have hne : c.size ≠ 0 := by omega
      have hn : roundSize t.iom.clusterSize offset c.size = t.iom.fullRound offset := by
        unfold roundSize Iom.fullRound
        unfold Iom.fullRound at hover
        omega
      have hwp : wp False (writeRound fid buf offset blocknr c) (fun r t' => ∃ c', r = .ok c' ∧ CopyOverruns e fid (c',t')) e t := by
        refine wp_appendRound (hrw ▸ hgrow) hn (fun hf => ?_) (fun _ _ _ hl _ => absurd hl (toS32_ne_error_of_lt (by omega)))
          (fun t1 _ _ hclock h1 => ⟨_,rfl,?_,hclock ▸ hmal,fun hin => ?_⟩)
        · rcases hf with hf | hf
          · omega
          · cases hf.symm.trans hio
        · rw [h1, setFile_fileTable_self, hrw]
          dsimp only
          rw [grownSize_behind hrw hhi hlong]
          exact_mod_cast hlong
        · have hle := Copy.inside_iff.mp hin
          rw [h1] at hle
          exact Nat.not_lt.mpr hle hover
      obtain ⟨_,t',hrun,c',rfl,hp⟩ := wp_false.mp hwp
      exact ⟨(c',t'),.single ⟨writeDone_none hne,hrun⟩,hp⟩
    · next hgrow =>
      refine ⟨(c,t),.refl,hrw ▸ Int.not_le.mp hgrow,h.1,fun hin => ?_⟩
      exact Nat.not_lt.mpr (Copy.inside_iff.mp hin) h.2

end First

end Copies

/-! ## Termination -/

/-- `do_write` gets to its loop in state `t`, with the position `blocknr` for every round. -/
def WriteReaches (e : Env) (s : Sys) (fid size offset : ℕ) (blocknr : ℤ) (c : WriteState) (t : Sys) : Prop :=
  ∃ inode a s1, writeEntry fid offset e s = some (.ok (inode,a),s1) ∧ blocknr = a + offset ∧
    c = ⟨size,inode,e.indet s1.clock⟩ ∧ t = s1.next

/-- The loop ends, each of its rounds strictly decreases what is left to write, and none copies more than its buffer
holds. -/
structure WriteTerminates (e : Env) (fid : ℕ) (buf : Mem) (offset : ℕ) (blocknr : ℤ) (c : WriteState) (t : Sys) :
    Prop where
  ends : Ends writeDone (writeRound fid buf offset blocknr) e (c,t)
  decreasing : ∀ p q, ReflTransGen (Round writeDone (writeRound fid buf offset blocknr) e) (c,t) p →
    Round writeDone (writeRound fid buf offset blocknr) e p q → q.1.size < p.1.size
  inside : ∀ p, ReflTransGen (Round writeDone (writeRound fid buf offset blocknr) e) (c,t) p → ¬CopyOverruns e fid p

section Terminates
variable {c : WriteState} {t : Sys}

theorem WriteReaches.state (h : WriteReaches e s fid size offset blocknr c t) : c.size = size ∧
    (t.iom.sbi.fileTable fid).rwoffset = offset ∧ (t.iom.sbi.fileTable fid).size = (s.iom.sbi.fileTable fid).size ∧
    t.iom.clusterSize = s.iom.clusterSize := by
  obtain ⟨inode,a,s1,hrun,_,rfl,rfl⟩ := h
  have hentry := wp_writeEntry.elim hrun _ rfl
  exact ⟨rfl,hentry⟩

/-- What `do_write` does from there is what the bounded loop does. -/
theorem WriteReaches.doWrite_eq (h : WriteReaches e s fid size offset blocknr c t) :
    doWrite fid buf size offset e s = (do
      match ← whileLoop writeDone (writeRound fid buf offset blocknr) e.fuel c with
      | none => return lab4Error
      | some (inode,wByte) =>
        let res ← writeInodeToItble inode
        if res = lab4Error then return lab4Error
        let _ ← updateSb
        let _ ← updateItble
        let _ ← updateDbmap
        return wByte) e t := by
  obtain ⟨inode,a,s1,hrun,rfl,rfl,rfl⟩ := h
  rw [SimpleFS.doWrite_eq, bind_apply, hrun, ← writeLoop_eq]
  rfl

/-- The rounds from here on are finitely many, and each makes progress. -/
def RoundsProgress (e : Env) (fid : ℕ) (buf : Mem) (offset : ℕ) (blocknr : ℤ) (p : WriteState × Sys) : Prop :=
  Ends writeDone (writeRound fid buf offset blocknr) e p ∧
    ∀ q r, ReflTransGen (Round writeDone (writeRound fid buf offset blocknr) e) p q →
      Round writeDone (writeRound fid buf offset blocknr) e q r → r.1.size < q.1.size

theorem progress_of_stuck {p : WriteState × Sys} (h : ∀ q, ¬Round writeDone (writeRound fid buf offset blocknr) e p q) :
    RoundsProgress e fid buf offset blocknr p := by
  refine ⟨⟨_,fun q hq => absurd hq (h q)⟩,fun q r hq hr => ?_⟩
  rcases hq.cases_head with rfl | ⟨q,hq,_⟩
  · exact absurd hr (h r)
  · exact absurd hq (h q)

/-- Inside or behind the cluster every round makes progress. -/
theorem progress_of_ne (hcs : t.iom.clusterSize < 2^31) (hoff : offset < 2^32) (hne : offset ≠ t.iom.clusterSize) :
    RoundsProgress e fid buf offset blocknr (c,t) := by
  have hround : ∀ p q : WriteState × Sys, p.2.iom.clusterSize = t.iom.clusterSize →
      Round writeDone (writeRound fid buf offset blocknr) e p q →
      q.2.iom.clusterSize = t.iom.clusterSize ∧ q.1.size < p.1.size := fun p q hp hr => by
    obtain ⟨hnz,hsize,hq,_⟩ := round_effect (hp ▸ hcs) hr
    have hpos := roundSize_pos (show t.iom.clusterSize < 2^32 by omega) hoff hne hnz
    rw [hp] at hsize hq
    exact ⟨hq,by omega⟩
  refine ⟨Ends.of_measure hround rfl,fun p q hp hr => (hround p q ?_ hr).2⟩
  exact rounds_invariant (I := fun p => p.2.iom.clusterSize = t.iom.clusterSize) (fun p q hp hr => (hround p q hp hr).1)
    rfl hp

/-- Right behind the cluster a round that gets to its end has written nothing. -/
theorem not_progress (hcs : t.iom.clusterSize < 2^31) (hoff : offset = t.iom.clusterSize)
    (hrw : (t.iom.sbi.fileTable fid).rwoffset = offset) (hsize : c.size ≠ 0) (hgo : ¬WriteStops e t offset blocknr c) :
    ¬RoundsProgress e fid buf offset blocknr (c,t) := by
  intro h
  obtain ⟨c',t',hr⟩ := writeRound_goes_on hcs hoff hrw hgo
  have hround : Round writeDone (writeRound fid buf offset blocknr) e (c,t) (c',t') := ⟨if_neg hsize,hr⟩
  have hlt : c'.size < c.size := h.2 _ _ .refl hround
  have hsame : c'.size = c.size - roundSize t.iom.clusterSize offset c.size := (round_effect hcs hround).2.1
  rw [hsame, hoff, roundSize_self] at hlt
  exact Nat.lt_irrefl _ hlt

/-- Whatever the copies do, the rounds make progress exactly when there is nothing to write, the offset is not the
cluster size, or a call of the first round fails. -/
theorem progress_iff (hcs : t.iom.clusterSize < 2^31) (hoff : offset < 2^32) (hrw : (t.iom.sbi.fileTable fid).rwoffset = offset) :
    RoundsProgress e fid buf offset blocknr (c,t) ↔
      c.size = 0 ∨ offset ≠ t.iom.clusterSize ∨ WriteStops e t offset blocknr c := by
  constructor
  · intro hterm
    by_contra hn
    push Not at hn
    exact not_progress hcs hn.2.1 hrw hn.1 hn.2.2 hterm
  · rintro (h0 | hne | hstop)
    · exact progress_of_stuck (fun q hr => writeDone_eq_none hr.1 h0)
    · exact progress_of_ne hcs hoff hne
    · exact progress_of_stuck (fun q hr => (writeRound_stops hcs hrw hstop).elim hr.2 _ rfl)

/-- The loop of `do_write` ends with every round making progress and every copy in its buffer exactly when there is
nothing to write, the offset is not the cluster size, or a call of the first round fails, and none of the first two
rounds makes a copy that is too long. -/
theorem do_write_terminates_iff (hcs : s.iom.clusterSize < 2^31) (hoff : offset < 2^32) (hlt : size < 2^32)
    (hhi : (s.iom.sbi.fileTable fid).size < 2^63) (h : WriteReaches e s fid size offset blocknr c t) :
    WriteTerminates e fid buf offset blocknr c t ↔
      (size = 0 ∨ offset ≠ s.iom.clusterSize ∨ WriteStops e t offset blocknr c) ∧ ¬WriteOverruns e t fid offset blocknr c := by
  obtain ⟨rfl,hrw,hft,ht⟩ := h.state
  rw [← ht] at hcs ⊢
  have hprogress : RoundsProgress e fid buf offset blocknr (c,t) ↔ _ := progress_iff hcs hoff hrw
  have hovers : (∃ p, ReflTransGen (Round writeDone (writeRound fid buf offset blocknr) e) (c,t) p ∧ CopyOverruns e fid p) ↔ _ :=
    overruns_iff hcs hoff hlt hrw (hft ▸ hhi)
  rw [← hprogress, ← hovers]
  constructor
  · intro h
    exact ⟨⟨h.ends,h.decreasing⟩,fun ⟨p,hp,hover⟩ => h.inside p hp hover⟩
  · rintro ⟨⟨hends,hdec⟩,hno⟩
    exact ⟨hends,hdec,fun p hp hover => hno ⟨p,hp,hover⟩⟩

/-- With every call succeeding, a write right behind a file that fits its cluster goes round for ever. -/
theorem write_never_ends (he : e.IoOk) (hblock : 0 ≤ blocknr) (hcs : t.iom.clusterSize < 2^31)
    (hoff : offset = t.iom.clusterSize) (hrw : (t.iom.sbi.fileTable fid).rwoffset = offset) (hsize : c.size ≠ 0)
    (hgrow : c.inode.iSize.toInt ≤ offset) (hft : (t.iom.sbi.fileTable fid).size ≤ offset) :
    ¬Ends writeDone (writeRound fid buf offset blocknr) e (c,t) := by
  refine not_ends (I := fun p => p.1.size ≠ 0 ∧ p.2.iom.clusterSize = offset ∧
    (p.2.iom.sbi.fileTable fid).rwoffset = offset ∧ p.1.inode.iSize.toInt ≤ offset ∧
    (p.2.iom.sbi.fileTable fid).size ≤ offset) ?_ ⟨hsize,hoff.symm,hrw,hgrow,hft⟩
  rintro ⟨c1,t1⟩ ⟨hsize1,hcs1,hrw1,hgrow1,hft1⟩
  dsimp only at hsize1 hcs1 hrw1 hgrow1 hft1
  have hn : roundSize t1.iom.clusterSize offset c1.size = 0 := by rw [hcs1, roundSize_self]
  have hgrown : (t1.iom.sbi.fileTable fid).grownSize 0 = offset := by
    unfold FileTable.grownSize
    rw [hrw1]
    split <;> omega
  have hval : (Int64.ofInt offset).toInt = offset := Int64.toInt_ofInt_of_le (by omega) (by omega)
  have hrun : wp False (writeRound fid buf offset blocknr c1) (fun r s' => ∃ c', r = .ok c' ∧ c'.size ≠ 0 ∧
      s'.iom.clusterSize = offset ∧ (s'.iom.sbi.fileTable fid).rwoffset = offset ∧
      c'.inode.iSize.toInt ≤ offset ∧ (s'.iom.sbi.fileTable fid).size ≤ offset) e t1 := by
    refine wp_appendRound (hrw1 ▸ hgrow1) hn (fun hf => ?_) (fun _ _ _ hl _ => absurd hl (by decide))
      (fun s2 _ _ _ h2 => ⟨_,rfl,hsize1,?_,?_,?_,?_⟩)
    · rcases hf with hf | hf
      · omega
      · cases hf.symm.trans (he _)
    · rw [h2]
      exact hcs1
    · rw [h2, setFile_fileTable_self, hrw1]
      exact add_zero _
    · rw [hgrown]
      exact hval.le
    · rw [h2, setFile_fileTable_self]
      exact hgrown.le
  obtain ⟨_,s',hr,c',rfl,hI⟩ := wp_false.mp hrun
  exact ⟨(c',s'),⟨if_neg hsize1,hr⟩,hI⟩

/-- Then `do_write` has no result, however many rounds are followed. -/
theorem do_write_hangs (he : e.IoOk) (h : WriteReaches e s fid size offset blocknr c t) (hblock : 0 ≤ blocknr)
    (hcs : s.iom.clusterSize < 2^31) (hoff : offset = s.iom.clusterSize) (hsize : size ≠ 0)
    (hgrow : c.inode.iSize.toInt ≤ offset) (hft : (t.iom.sbi.fileTable fid).size ≤ offset) :
    doWrite fid buf size offset e s = none := by
  obtain ⟨hsize',hrw,_,ht⟩ := h.state
  rw [← ht] at hcs hoff
  have hnever : ¬Ends writeDone (writeRound fid buf offset blocknr) e (c,t) :=
    write_never_ends he hblock hcs hoff hrw (hsize' ▸ hsize) hgrow hft
  have hloop := whileLoop_diverges hnever e.fuel
  rw [h.doWrite_eq, bind_apply, hloop]
  rfl

end Terminates

/-! ## A new file -/

/-- A new volume with one file, open for writing. -/
def openNewFile : M ℤ := do
  let _ ← formatAndMount
  lab4DoOpen [slash,102] (oCreat ||| oRdwr) 0o644

/-- A write to it, up to the loop. -/
def enterWrite (offset : ℕ) : M (ℤ × Except ℤ (Inode × ℤ)) := do
  let fid ← openNewFile
  let r ← writeEntry 3 offset
  return (fid,r)

theorem enterWrite_reaches (h : (enterWrite offset quietEnv (blankDisk 80)).map (fun p => (p.1.1,
      p.1.2.toOption.map (fun q => (q.1.iSize.toInt,q.2)),p.2.iom.clusterSize,(p.2.iom.sbi.fileTable 3).size)) =
    some (3,some (0,20480),4096,0)) : ∃ s1 c t, openNewFile quietEnv (blankDisk 80) = some (3,s1) ∧
      WriteReaches quietEnv s1 3 size offset (20480 + offset) c t ∧ s1.iom.clusterSize = 4096 ∧
      c.inode.iSize.toInt = 0 ∧ (t.iom.sbi.fileTable 3).size = 0 := by
  obtain ⟨⟨⟨fid,r⟩,s3⟩,hrun,hp⟩ := Option.map_eq_some_iff.mp h
  obtain ⟨fid',s1,hopen,hrest⟩ := exists_of_bind hrun
  obtain ⟨r',s2,hentry,hret⟩ := exists_of_bind hrest
  cases hret
  have hfid : fid = 3 := congrArg Prod.fst hp
  have hr := congrArg (fun p => p.2.1) hp
  have hcs : s3.iom.clusterSize = 4096 := congrArg (fun p => p.2.2.1) hp
  have hft : (s3.iom.sbi.fileTable 3).size = 0 := congrArg (fun p => p.2.2.2) hp
  subst hfid
  cases r with
  | error res => cases hr
  | ok q =>
    obtain ⟨inode,a⟩ := q
    have hq := Option.some.inj hr
    have hsize : inode.iSize.toInt = 0 := congrArg Prod.fst hq
    have ha : a = 20480 := congrArg Prod.snd hq
    have hreach : WriteReaches quietEnv s1 3 size offset (20480 + offset) ⟨size,inode,0⟩ s3.next :=
      ⟨inode,a,s3,hentry,by rw [ha],rfl,rfl⟩
    exact ⟨s1,_,_,hopen,hreach,hreach.state.2.2.2.symm.trans hcs,hsize,hft⟩

/-- A byte at the start of the file is written. -/
theorem do_write_terminates_newFile : ∃ s1 c t, openNewFile quietEnv (blankDisk 80) = some (3,s1) ∧
    WriteReaches quietEnv s1 3 1 0 (20480 + (0 : ℕ)) c t ∧
      WriteTerminates quietEnv 3 zeros 0 (20480 + (0 : ℕ)) c t := by
  obtain ⟨s1,c,t,hopen,hreach,hcs,hsize,hft⟩ := @enterWrite_reaches 0 1 (by decide +kernel)
  have hft' := hreach.state.2.2.1
  refine ⟨s1,c,t,hopen,hreach,(do_write_terminates_iff (by omega) (by omega) (by omega) (by omega) hreach).mpr
    ⟨.inr (.inl (by omega)),fun hover => ?_⟩⟩
  unfold WriteOverruns at hover
  rw [if_pos (by omega)] at hover
  obtain ⟨_,_,_,hlong,_⟩ := hover
  omega

/-- A byte right behind the cluster is written for ever. -/
theorem do_write_hangs_newFile : ∃ s1 c t, openNewFile quietEnv (blankDisk 80) = some (3,s1) ∧
    WriteReaches quietEnv s1 3 1 4096 (20480 + (4096 : ℕ)) c t ∧
      ¬Ends writeDone (writeRound 3 zeros 4096 (20480 + (4096 : ℕ))) quietEnv (c,t) ∧
      ¬WriteTerminates quietEnv 3 zeros 4096 (20480 + (4096 : ℕ)) c t := by
  obtain ⟨s1,c,t,hopen,hreach,hcs,hsize,hft⟩ := @enterWrite_reaches 4096 1 (by decide +kernel)
  obtain ⟨hc,hrw,_,ht⟩ := hreach.state
  have hends : ¬Ends writeDone (writeRound 3 zeros 4096 (20480 + (4096 : ℕ))) quietEnv (c,t) :=
    write_never_ends quietEnv_nominal.io (by omega) (by omega) (by omega) hrw (by omega) (by omega) (by omega)
  exact ⟨s1,c,t,hopen,hreach,hends,fun h => hends h.ends⟩

end SimpleFS
