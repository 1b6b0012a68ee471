import SimpleFS.WriteTermination

/-! # What a read returns

`do_read` hands out the text at the start of the block: every round reads from the block's address,
whatever the file position, and takes the length of the text for the number of bytes.
-/
namespace SimpleFS
open Bytes Machine Prog

variable {e : Env} {s : Sys} {fid offset size : ℕ} {buf blk m : Mem} {v : Inode} {u : Prop}

/-! ## Text -/

theorem textLen_le : textLen m size ≤ size := Nat.find_min' _ (.inl rfl)

theorem textLen_end : textLen m size = size ∨ m (textLen m size) = 0 :=
  Nat.find_spec (p := fun i => i = size ∨ m i = 0) ⟨size,.inl rfl⟩

theorem textLen_text {i : ℕ} (hi : i < textLen m size) : m i ≠ 0 :=
  fun h0 => Nat.find_min (p := fun i => i = size ∨ m i = 0) _ hi (.inr h0)

theorem textLen_eq {l : ℕ} (hl : l ≤ size) (htext : ∀ i < l, m i ≠ 0) (hend : l = size ∨ m l = 0) :
    textLen m size = l := by
  refine le_antisymm (Nat.find_min' _ hend) ?_
  by_contra hlt
  rcases @textLen_end size m with h | h
  · omega
  · exact htext _ (by omega) h

/-- The text among fewer bytes is cut off. -/
theorem textLen_min {k : ℕ} (hk : k ≤ size) : textLen m k = min (textLen m size) k := by
  refine textLen_eq (Nat.min_le_right _ _) (fun i hi => textLen_text (hi.trans_le (Nat.min_le_left _ _))) ?_
  rcases Nat.le_total k (textLen m size) with h | h
  · exact .inl (Nat.min_eq_right h)
  · rw [Nat.min_eq_left h]
    rcases @textLen_end size m with h' | h'
    · exact .inl (by omega)
    · exact .inr h'

/-- `strlen` of the buffer after `size` bytes of a block were read into it. -/
theorem strlen_read {cap : ℕ} (h : size ≤ cap) : strlen cap (splice zeros 0 size blk) =
    if textLen blk size = cap then none else some (textLen blk size) := by
  have hle : textLen blk size ≤ size := textLen_le
  have hlen : textLen (splice zeros 0 size blk) cap = textLen blk size := by
    refine textLen_eq (by omega) (fun i hi => ?_) ?_
    · rw [splice_inside (Nat.zero_le i) (by omega), Nat.sub_zero]
      exact textLen_text hi
    · rcases Nat.lt_or_eq_of_le hle with hlt | heq
      · right
        rw [splice_inside (Nat.zero_le _) (by omega), Nat.sub_zero]
        rcases @textLen_end size blk with h' | h'
        · omega
        · exact h'
      · rcases Nat.lt_or_eq_of_le h with hlt | heq'
        · right
          rw [splice_outside (by omega)]
          rfl
        · exact .inl (by omega)
  unfold strlen
  rw [hlen]
  split
  · rw [if_neg (by omega)]
  · rw [if_pos (by omega)]

/-- The text that was read is the start of the block. -/
theorem splice_read {l : ℕ} (hl : l ≤ size) : splice buf 0 l (splice zeros 0 size blk) = splice buf 0 l blk := by
  funext i
  by_cases hi : i < l
  · rw [splice_inside (Nat.zero_le i) (by omega), splice_inside (Nat.zero_le i) (by omega), Nat.sub_zero,
      splice_inside (Nat.zero_le i) (by omega), Nat.sub_zero]
  · rw [splice_outside (by omega), splice_outside (by omega)]

/-- Copying a shorter start of the block again changes nothing. -/
theorem splice_again {l l' : ℕ} (h : l' ≤ l) : splice (splice buf 0 l blk) 0 l' blk = splice buf 0 l blk := by
  funext i
  by_cases hi : i < l'
  · rw [splice_inside (Nat.zero_le i) (by omega), splice_inside (Nat.zero_le i) (by omega)]
  · rw [splice_outside (by omega)]

theorem splice_lt_ne {d d' : Mem} {a b : ℕ} (h : a < b) (heq : ∀ buf, splice buf 0 a d = splice buf 0 b d') : False := by
  have hat := congrFun (heq (fun _ => d' a + 1)) a
  rw [splice_outside (by omega), splice_inside (Nat.zero_le a) (by omega), Nat.sub_zero] at hat
  have hne : ∀ x : UInt8, x + 1 ≠ x := by
    intro x hx
    have hnat := congrArg UInt8.toNat hx
    rw [UInt8.toNat_add] at hnat
    have hone : (1 : UInt8).toNat = 1 := rfl
    have hlt := x.toNat_lt
    omega
  exact hne _ hat

/-- Two copies into every buffer are the same exactly when they copy the same bytes. -/
theorem splice_eq_forall {d d' : Mem} {a b : ℕ} :
    (∀ buf, splice buf 0 a d = splice buf 0 b d') ↔ a = b ∧ ∀ i < a, d i = d' i := by
  constructor
  · intro heq
    have hab : a = b := by
      rcases Nat.lt_trichotomy a b with h | h | h
      · exact (splice_lt_ne h heq).elim
      · exact h
      · exact (splice_lt_ne h (fun buf => (heq buf).symm)).elim
    subst hab
    refine ⟨rfl,fun i hi => ?_⟩
    have hat := congrFun (heq zeros) i
    rwa [splice_inside (Nat.zero_le i) (by omega), splice_inside (Nat.zero_le i) (by omega), Nat.sub_zero] at hat
  · rintro ⟨rfl,hd⟩ buf
    funext i
    by_cases hi : i < a
    · rw [splice_inside (Nat.zero_le i) (by omega), splice_inside (Nat.zero_le i) (by omega), Nat.sub_zero, hd i hi]
    · rw [splice_outside (by omega), splice_outside (by omega)]

/-! ## The loop -/

/-- The file position of the last round of a read that ends at `limit`: rounds start at the offset and at
the multiples of `CLUSTER_SIZE` behind it. -/
def lastRound (offset limit : ℕ) : ℕ := max offset ((limit - 1) / lab4ClusterSize * lab4ClusterSize)

/-- Where the rounds of a read from `pos` end. -/
def readLimit (v : Inode) (pos size : ℕ) : ℕ := min v.iSize.toInt.toNat (pos + size)

/-- What a read from `pos` leaves: the text the last round sees, and in the caller's buffer the text the
first round sees. -/
def readOutcome (v : Inode) (blk : Mem) (pos size : ℕ) (buf : Mem) (r : ℤ) : ℤ × Mem :=
  if size = 0 ∨ v.iSize.toInt ≤ pos then (r,buf)
  else (textLen blk (pos + size - lastRound pos (readLimit v pos size)),splice buf 0 (textLen blk size) blk)

/-- One round takes the read to the next multiple of `CLUSTER_SIZE` or to its end. -/
theorem readOutcome_round {pos : ℕ} {r : ℤ} (hsize : size ≠ 0) (hpos : ¬v.iSize.toInt ≤ pos) :
    readOutcome v blk (pos + min (lab4ClusterSize - pos % lab4ClusterSize) size)
      (size - min (lab4ClusterSize - pos % lab4ClusterSize) size) (splice buf 0 (textLen blk size) blk)
      (textLen blk size : ℕ) = readOutcome v blk pos size buf r := by
  unfold readOutcome lastRound readLimit lab4ClusterSize
  have hgo : ¬(size = 0 ∨ v.iSize.toInt ≤ pos) := by omega
  rw [if_neg hgo]
  by_cases hend : size - min (4096 - pos % 4096) size = 0 ∨ v.iSize.toInt ≤ (pos + min (4096 - pos % 4096) size : ℕ)
  · rw [if_pos hend]
    have hlast : pos + size - max pos ((min v.iSize.toInt.toNat (pos + size) - 1) / 4096 * 4096) = size := by omega
    rw [hlast]
  · rw [if_neg hend, splice_again (by rw [textLen_min (Nat.sub_le _ _)]; exact Nat.min_le_left _ _)]
    congr 3
    omega

theorem readLoop_run {fuel pos a : ℕ} {r : ℤ} (hio : e.IoOk) (hcs : size ≤ s.iom.clusterSize)
    (htext : textLen (s.iom.dev.bytes.shift a) size ≠ s.iom.clusterSize)
    (hrw : (s.iom.sbi.fileTable fid).rwoffset = pos) (hfuel : size < fuel) :
    wp False (readLoop fid v a fuel size buf r) (fun p _ => p = readOutcome v (s.iom.dev.bytes.shift a) pos size buf r)
      e s := by
  induction fuel generalizing size pos r buf s with
  | zero => omega
  | succ fuel ih =>
    rw [readLoop, wp_bind, wp_getIom]
    dsimp only
    rw [hrw]
    by_cases hdone : size = 0 ∨ v.iSize.toInt ≤ pos
    · rw [if_pos hdone, wp_pure]
      unfold readOutcome
      rw [if_pos hdone]
    · rw [if_neg hdone, wp_bind]
      push Not at hdone
      refine wp_pread_ok hio (Int.natCast_nonneg a) hcs (fun s1 h1 => ?_)
      have hmin : (if lab4ClusterSize - ((pos : ℤ) % lab4ClusterSize).toNat > size then size
          else lab4ClusterSize - ((pos : ℤ) % lab4ClusterSize).toNat) =
          min (lab4ClusterSize - pos % lab4ClusterSize) size := by
        unfold lab4ClusterSize
        split <;> omega
      have hle : textLen (s.iom.dev.bytes.shift a) size ≤ size := textLen_le
      rw [Int.toNat_natCast, wp_bind, strlen_read hcs, if_neg htext, wp_lift]
      refine ⟨nofun,fun l hl => ?_⟩
      cases hl
      rw [hmin, splice_read hle, wp_bind, wp_modifyIom]
      -- the round leaves the device alone and moves the file position
      generalize hcut : min (lab4ClusterSize - pos % lab4ClusterSize) size = cut
      have hrest : textLen (s.iom.dev.bytes.shift a) (size - cut) ≠ s.iom.clusterSize := by
        rw [textLen_min (Nat.sub_le size cut)]
        omega
      have hcut_pos : 0 < cut := by
        unfold lab4ClusterSize at hcut
        omega
      have hstep : readOutcome v (s.iom.dev.bytes.shift a) (pos + cut) (size - cut)
          (splice buf 0 (textLen (s.iom.dev.bytes.shift a) size) (s.iom.dev.bytes.shift a))
          (textLen (s.iom.dev.bytes.shift a) size : ℕ) = readOutcome v (s.iom.dev.bytes.shift a) pos size buf r := by
        rw [← hcut]
        exact readOutcome_round hdone.1 (by omega)
      generalize hm : s1.iom.setFile fid { s.iom.sbi.fileTable fid with rwoffset := pos + (cut : ℕ) } = m'
      have hdev : m'.dev = s.iom.dev := by
        rw [← hm, ← h1]
        rfl
      have hcluster : m'.clusterSize = s.iom.clusterSize := by
        rw [← hm, ← h1]
        rfl
      have hnext : (m'.sbi.fileTable fid).rwoffset = (pos + cut : ℕ) := by
        rw [← hm, setFile_fileTable_self]
        exact (Nat.cast_add pos cut).symm
      have hfuel' : size - cut < fuel := by omega
      have hle' : size - cut ≤ m'.clusterSize := by omega
      have htext' : textLen (m'.dev.bytes.shift a) (size - cut) ≠ m'.clusterSize := by rwa [hdev, hcluster]
      have hih : wp False (readLoop fid v a fuel (size - cut)
          (splice buf 0 (textLen (s.iom.dev.bytes.shift a) size) (s.iom.dev.bytes.shift a))
          (textLen (s.iom.dev.bytes.shift a) size : ℕ)) (fun p _ => p = readOutcome v (m'.dev.bytes.shift a) (pos + cut)
            (size - cut) (splice buf 0 (textLen (s.iom.dev.bytes.shift a) size) (s.iom.dev.bytes.shift a))
            (textLen (s.iom.dev.bytes.shift a) size : ℕ)) e { s1 with iom := m' } :=
        @ih { s1 with iom := m' } (size - cut) _ (pos + cut) _ hle' htext' hnext hfuel'
      refine hih.mono (fun p s2 hp => ?_)
      rw [hp, hdev]
      exact hstep

/-! ## The contract -/

theorem Env.Nominal.withFuel (he : e.Nominal) (n : ℕ) : Env.Nominal { e with fuel := n } := ⟨he.io,he.malloc⟩

/-- Handle `fid` names the live record `v`. -/
structure Iom.OpenOn (m : Iom) (fid : ℕ) (v : Inode) : Prop where
  handle : fid < maxOpenFile
  lo : 2 ≤ (m.sbi.fileTable fid).ino.toNat
  hi : (m.sbi.fileTable fid).ino.toNat < m.inodeNum
  record : v = m.inode (m.sbi.fileTable fid).ino.toNat

/-- The number of bytes a read has to return. -/
def readCount (v : Inode) (size offset : ℕ) : ℕ := min size (v.iSize.toInt.toNat - offset)

/-- The contract of `do_read`: whatever the caller's buffer holds, it returns the number of bytes of the file
in the window and has copied these bytes and no others. -/
def ReadsWindow (s : Sys) (fid : ℕ) (v : Inode) (size offset : ℕ) : Prop :=
  ∀ e : Env, e.Nominal → ∃ n, ∀ fuel ≥ n, ∀ buf, ∃ s', doRead fid buf size offset { e with fuel := fuel } s =
    some ((((readCount v size offset : ℕ) : ℤ),splice buf 0 (readCount v size offset)
      ((s.iom.dev.bytes.shift (v.iBlocks 0).toNat).shift offset)),s')

/-- When the text at the start of the block is the window: the read is inside the buffer, the window is not
empty, the text ends where the window is long, the last round still asks for all of it, and the start of the
block repeats at the offset. -/
structure TextIsWindow (m : Iom) (v : Inode) (size offset : ℕ) : Prop where
  fits : size ≤ m.clusterSize
  count : 0 < readCount v size offset
  text : textLen (m.dev.bytes.shift (v.iBlocks 0).toNat) size = readCount v size offset
  ends : readCount v size offset < m.clusterSize
  last : readCount v size offset + lastRound offset (readLimit v offset size) ≤ offset + size
  repeats : ∀ i < readCount v size offset, m.dev.bytes ((v.iBlocks 0).toNat + i) =
    m.dev.bytes ((v.iBlocks 0).toNat + (offset + i))

section Contract
variable (ho : s.iom.OpenOn fid v) (hpos : 0 < v.iSize.toInt)
include ho hpos

/-- Up to the loop a read of a non-empty file sets the file position. -/
theorem wp_doRead {Q : ℤ × Mem → Sys → Prop} (he : e.Nominal)
    (h : ∀ t r, t.iom = s.iom.setFile fid { s.iom.sbi.fileTable fid with rwoffset := offset } →
      (∃ k, r = e.indet k) → wp u (readLoop fid v (v.iBlocks 0).toNat e.fuel size buf r) Q e t) :
    wp u (doRead fid buf size offset) Q e s := by
  have hsize : ¬v.iSize = 0 := by
    rintro h0
    rw [h0] at hpos
    exact absurd hpos (by decide)
  unfold doRead
  rw [wp_bind, wp_getIom]
  dsimp only
  rw [if_neg (Nat.not_le.mpr ho.handle), wp_bind, wp_modifyIom, wp_bind]
  refine wp_doReadInode (fun s1 _ hc => ?_) (fun _ hhi => ?_) (fun s1 h1 _ _ => ?_)
  · rcases hc with hc | hc
    · exact absurd ho.lo (by omega)
    · exact absurd he.malloc hc
  · exact absurd ho.hi (Nat.not_lt.mpr hhi)
  · have hv : (s.iom.setFile fid { s.iom.sbi.fileTable fid with rwoffset := offset }).inode
        (s.iom.sbi.fileTable fid).ino.toNat = v := ho.record.symm
    dsimp only
    rw [hv, if_neg hsize, wp_bind, wp_malloc, he.malloc]
    simp only [Bool.not_false, Bool.not_true, Bool.false_eq_true, ↓reduceIte, wp_bind, wp_env, wp_indeterminate]
    exact h _ _ h1 ⟨_,rfl⟩

/-- A read that cannot do a round returns what `r_byte` happened to hold. -/
theorem doRead_empty (he : e.Nominal) (hfuel : 0 < e.fuel) (hdone : size = 0 ∨ v.iSize.toInt ≤ offset) :
    wp False (doRead fid buf size offset) (fun p _ => ∃ k, p = (e.indet k,buf)) e s := by
  refine wp_doRead ho hpos he (fun t r ht hr => ?_)
  obtain ⟨fuel,hf⟩ : ∃ n, e.fuel = n + 1 := ⟨e.fuel - 1,by omega⟩
  have hrw : (t.iom.sbi.fileTable fid).rwoffset = offset := by rw [ht, setFile_fileTable_self]
  rw [hf, readLoop, wp_bind, wp_getIom]
  dsimp only
  rw [hrw, if_pos hdone, wp_pure]
  obtain ⟨k,rfl⟩ := hr
  exact ⟨k,rfl⟩

section Round
variable (hsize : size ≠ 0) (hoff : (offset : ℤ) < v.iSize.toInt)
include hsize hoff

/-- A read inside the buffer, of a text that ends inside it. -/
theorem doRead_text (he : e.Nominal) (hfuel : size < e.fuel) (hcs : size ≤ s.iom.clusterSize)
    (htext : textLen (s.iom.dev.bytes.shift (v.iBlocks 0).toNat) size ≠ s.iom.clusterSize) :
    wp False (doRead fid buf size offset) (fun p _ => p =
      (((textLen (s.iom.dev.bytes.shift (v.iBlocks 0).toNat)
          (offset + size - lastRound offset (readLimit v offset size)) : ℕ) : ℤ),
        splice buf 0 (textLen (s.iom.dev.bytes.shift (v.iBlocks 0).toNat) size)
          (s.iom.dev.bytes.shift (v.iBlocks 0).toNat))) e s := by
  refine wp_doRead ho hpos he (fun t r ht _ => ?_)
  have hdev : t.iom.dev = s.iom.dev := by
    rw [ht]
    rfl
  have hcluster : t.iom.clusterSize = s.iom.clusterSize := by
    rw [ht]
    rfl
  have hrw : (t.iom.sbi.fileTable fid).rwoffset = offset := by rw [ht, setFile_fileTable_self]
  rw [← hdev] at htext ⊢
  rw [← hcluster] at hcs htext
  refine (readLoop_run he.io hcs htext hrw hfuel).mono (fun p _ hp => ?_)
  rw [hp]
  unfold readOutcome
  have hgo : ¬(size = 0 ∨ v.iSize.toInt ≤ offset) := by omega
  rw [if_neg hgo]

/-- A longer read, or a text that fills the buffer, leaves the allocation. -/
theorem doRead_overrun (he : e.Nominal) (hbad : s.iom.clusterSize < size ∨
      textLen (s.iom.dev.bytes.shift (v.iBlocks 0).toNat) size = s.iom.clusterSize) :
    wp True (doRead fid buf size offset) (fun _ _ => False) e s := by
  refine wp_doRead ho hpos he (fun t r ht _ => ?_)
  have hrw : (t.iom.sbi.fileTable fid).rwoffset = offset := by rw [ht, setFile_fileTable_self]
  have hgo : ¬(size = 0 ∨ v.iSize.toInt ≤ offset) := by omega
  have hcluster : t.iom.clusterSize = s.iom.clusterSize := by
    rw [ht]
    rfl
  have hdev : t.iom.dev = s.iom.dev := by
    rw [ht]
    rfl
  cases e.fuel with
  | zero =>
    rw [readLoop, wp_undefined]
    trivial
  | succ fuel =>
    rw [readLoop, wp_bind, wp_getIom]
    dsimp only
    rw [hrw, if_neg hgo, wp_bind, hcluster]
    rcases Nat.lt_or_ge s.iom.clusterSize size with hlt | hle
    · rw [wp_pread, he.io t.clock]
      refine ⟨fun hn => ?_,fun _ => ⟨fun _ => trivial,fun hn => absurd hlt hn⟩⟩
      rcases hn with hn | hn
      · omega
      · cases hn
    · refine wp_pread_ok he.io (Int.natCast_nonneg _) hle (fun s1 _ => ?_)
      have htext : textLen (s.iom.dev.bytes.shift (v.iBlocks 0).toNat) size = s.iom.clusterSize :=
        hbad.resolve_left (Nat.not_lt.mpr hle)
      rw [Int.toNat_natCast, wp_bind, strlen_read hle, hdev, if_pos htext, wp_lift]
      exact ⟨fun _ => trivial,nofun⟩

end Round

/-- Without a round the result can be any value, so the contract does not hold. -/
theorem not_readsWindow_empty (hdone : size = 0 ∨ v.iSize.toInt ≤ offset) : ¬ReadsWindow s fid v size offset := by
  intro h
  have hcount : readCount v size offset = 0 := by
    unfold readCount
    omega
  -- an environment in which `r_byte` holds 1
  have hone : Env.Nominal { quietEnv with indet := fun _ => 1 } := ⟨quietEnv_nominal.io,quietEnv_nominal.malloc⟩
  obtain ⟨n,hn⟩ := h _ hone
  obtain ⟨s',hr⟩ := hn (n + 1) (Nat.le_succ n) zeros
  have hrun : wp False (doRead fid zeros size offset) (fun p _ => ∃ _ : ℕ, p = (1,zeros))
      { quietEnv with indet := fun _ => 1, fuel := n + 1 } s :=
    doRead_empty ho hpos (hone.withFuel (n + 1)) (Nat.succ_pos n) hdone
  obtain ⟨p,t,hp,_,rfl⟩ := wp_false.mp hrun
  have heq := congrArg (fun o => o.map (fun q : (ℤ × Mem) × Sys => q.1.1)) (hp.symm.trans hr)
  have hint : (1 : ℤ) = (readCount v size offset : ℕ) := Option.some.inj heq
  omega

section Window
variable (hsize : size ≠ 0) (hoff : (offset : ℤ) < v.iSize.toInt)
include hsize hoff

/-- What the contract says of the text. -/
theorem textIsWindow_of_reads (h : ReadsWindow s fid v size offset) :
    TextIsWindow s.iom v size offset := by
  obtain ⟨n,hn⟩ := h quietEnv quietEnv_nominal
  have he : Env.Nominal { quietEnv with fuel := n + size + 1 } := quietEnv_nominal.withFuel _
  have hin : ¬(s.iom.clusterSize < size ∨
      textLen (s.iom.dev.bytes.shift (v.iBlocks 0).toNat) size = s.iom.clusterSize) := fun hbad => by
    obtain ⟨s',hr⟩ := hn (n + size + 1) (by omega) zeros
    exact (doRead_overrun ho hpos hsize hoff he hbad).elim hr
  rw [not_or, Nat.not_lt] at hin
  have hcount : readCount v size offset ≤ s.iom.clusterSize ∧ 0 < readCount v size offset := by
    unfold readCount
    omega
  -- the two results agree for every buffer
  have hout : ∀ buf : Mem, textLen (s.iom.dev.bytes.shift (v.iBlocks 0).toNat)
      (offset + size - lastRound offset (readLimit v offset size)) = readCount v size offset ∧
      splice buf 0 (textLen (s.iom.dev.bytes.shift (v.iBlocks 0).toNat) size)
          (s.iom.dev.bytes.shift (v.iBlocks 0).toNat) =
        splice buf 0 (readCount v size offset) ((s.iom.dev.bytes.shift (v.iBlocks 0).toNat).shift offset) := fun buf => by
    obtain ⟨s',hr⟩ := hn (n + size + 1) (by omega) buf
    have hrun : size < ({ quietEnv with fuel := n + size + 1 } : Env).fuel := by
      change size < n + size + 1
      omega
    obtain ⟨p,t,hp,rfl⟩ := wp_false.mp (doRead_text ho hpos hsize hoff he hrun hin.1 hin.2)
    have heq := congrArg Prod.fst (Option.some.inj (hp.symm.trans hr))
    exact ⟨Int.ofNat_inj.mp (congrArg Prod.fst heq),congrArg Prod.snd heq⟩
  obtain ⟨htext,hrep⟩ := splice_eq_forall.mp (fun buf => (hout buf).2)
  have hlast : textLen (s.iom.dev.bytes.shift (v.iBlocks 0).toNat)
      (offset + size - lastRound offset (readLimit v offset size)) = readCount v size offset := (hout zeros).1
  have hl : textLen (s.iom.dev.bytes.shift (v.iBlocks 0).toNat)
      (offset + size - lastRound offset (readLimit v offset size)) ≤ _ := textLen_le
  refine ⟨hin.1,hcount.2,htext,by omega,by omega,fun i hi => ?_⟩
  exact hrep i (by omega)

/-- The text that is the window is what a read returns and copies. -/
theorem reads_of_textIsWindow (h : TextIsWindow s.iom v size offset) : ReadsWindow s fid v size offset := by
  intro e he
  refine ⟨size + 1,fun fuel hf buf => ?_⟩
  have hrun : size < ({ e with fuel := fuel } : Env).fuel := hf
  have htext := h.text
  have hends := h.ends
  have hlast := h.last
  obtain ⟨p,t,hp,rfl⟩ := wp_false.mp (doRead_text ho hpos hsize hoff (he.withFuel fuel) hrun h.fits (by omega))
  refine ⟨t,hp.trans ?_⟩
  have hcut : textLen (s.iom.dev.bytes.shift (v.iBlocks 0).toNat)
      (offset + size - lastRound offset (readLimit v offset size)) = readCount v size offset := by
    have hround : offset ≤ lastRound offset (readLimit v offset size) := le_max_left _ _
    rw [textLen_min (show _ ≤ size by omega), htext]
    omega
  have hcopy := (splice_eq_forall.mpr ⟨htext,fun i hi => h.repeats i (htext ▸ hi)⟩) buf
  rw [hcut]
  exact congrArg (fun b : Mem => some ((((readCount v size offset : ℕ) : ℤ),b),t)) hcopy

end Window

/-- A read keeps its contract exactly when the text at the start of the block is the window. -/
theorem do_read_window_iff :
    ReadsWindow s fid v size offset ↔ TextIsWindow s.iom v size offset := by
  by_cases hdone : size = 0 ∨ v.iSize.toInt ≤ offset
  · refine ⟨fun h => absurd h (not_readsWindow_empty ho hpos hdone),fun h => ?_⟩
    have hcount := h.count
    unfold readCount at hcount
    omega
  · push Not at hdone
    exact ⟨fun h => textIsWindow_of_reads ho hpos hdone.1 hdone.2 h,
      reads_of_textIsWindow ho hpos hdone.1 hdone.2⟩

end Contract

/-! ## A file of two bytes -/

def twoBytes : Mem := fun i => if i = 0 then 104 else if i = 1 then 105 else 0

/-- A new volume with one open file that holds `twoBytes`. -/
def writeNewFile : M ℤ := do
  let _ ← openNewFile
  doWrite 3 twoBytes 2 0

set_option maxRecDepth 100000 in
theorem writeNewFile_run : ∃ s1, writeNewFile quietEnv (blankDisk 80) = some (2,s1) ∧
    s1.iom.OpenOn 3 (s1.iom.inode 3) ∧ (s1.iom.inode 3).iSize.toInt = 2 ∧ s1.iom.clusterSize = 4096 ∧
    s1.iom.dev.bytes ((s1.iom.inode 3).iBlocks 0).toNat = 104 ∧
    s1.iom.dev.bytes (((s1.iom.inode 3).iBlocks 0).toNat + 1) = 105 := by
  have hcomputed : (writeNewFile quietEnv (blankDisk 80)).map (fun p => (p.1,(p.2.iom.inode 3).iSize.toInt,
      [(p.2.iom.sbi.fileTable 3).ino.toNat,p.2.iom.inodeNum,p.2.iom.clusterSize],
      [p.2.iom.dev.bytes ((p.2.iom.inode 3).iBlocks 0).toNat,
        p.2.iom.dev.bytes (((p.2.iom.inode 3).iBlocks 0).toNat + 1)])) = some (2,2,[3,32,4096],[104,105]) := by
    decide +kernel
  obtain ⟨⟨r,s1⟩,hrun,hp⟩ := Option.map_eq_some_iff.mp hcomputed
  simp only [Prod.mk.injEq, List.cons.injEq] at hp
  obtain ⟨rfl,hsize,⟨hino,hnum,hcs,_⟩,h0,h1,_⟩ := hp
  refine ⟨s1,hrun,⟨by decide,by omega,by omega,?_⟩,hsize,hcs,h0,h1⟩
  rw [hino]

/-- Reading the whole text from its start works. -/
theorem do_read_window_newFile : ∃ s1, writeNewFile quietEnv (blankDisk 80) = some (2,s1) ∧
    ReadsWindow s1 3 (s1.iom.inode 3) 2 0 := by
  obtain ⟨s1,hrun,ho,hsize,hcs,h0,h1⟩ := writeNewFile_run
  have hcount : readCount (s1.iom.inode 3) 2 0 = 2 := by
    unfold readCount
    omega
  have htext : textLen (s1.iom.dev.bytes.shift ((s1.iom.inode 3).iBlocks 0).toNat) 2 = 2 := by
    refine textLen_eq le_rfl (fun i hi => ?_) (.inl rfl)
    rw [Mem.shift_apply]
    interval_cases i
    · rw [Nat.add_zero, h0]
      decide
    · rw [h1]
      decide
  refine ⟨s1,hrun,(do_read_window_iff ho (by omega)).mpr ⟨by omega,by omega,by rw [htext, hcount],by omega,?_,?_⟩⟩
  · unfold lastRound readLimit lab4ClusterSize
    omega
  · intro i _
    rw [Nat.zero_add]

/-- From the second byte on it returns both bytes again. -/
theorem do_read_ignores_offset : ∃ s1, writeNewFile quietEnv (blankDisk 80) = some (2,s1) ∧
    s1.iom.OpenOn 3 (s1.iom.inode 3) ∧ 0 < (s1.iom.inode 3).iSize.toInt ∧
    (s1.iom.inode 3).iSize.toInt ≤ s1.iom.clusterSize ∧ ¬ReadsWindow s1 3 (s1.iom.inode 3) 2 1 := by
  obtain ⟨s1,hrun,ho,hsize,hcs,h0,h1⟩ := writeNewFile_run
  refine ⟨s1,hrun,ho,by omega,by omega,fun h => ?_⟩
  have htext := (textIsWindow_of_reads ho (by omega) (by omega) (by omega) h).text
  have hcount : readCount (s1.iom.inode 3) 2 1 = 1 := by
    unfold readCount
    omega
  rw [hcount] at htext
  have hend : textLen (s1.iom.dev.bytes.shift ((s1.iom.inode 3).iBlocks 0).toNat) 2 = 2 ∨ _ := textLen_end
  rcases hend with h2 | h2
  · omega
  · rw [htext, Mem.shift_apply, h1] at h2
    exact absurd h2 (by decide)

end SimpleFS
