import SimpleFS.Calls

/-! # Directory slots on a mounted volume

What the slot loops find, and the rule of `lab4_lookup`: on a mounted volume it reads the block of the
record and returns the first used slot with the name.
-/
namespace SimpleFS
open Bytes Machine Prog

/-! ## The slot loop -/

/-- A loop from slot `i` on has stopped at slot `j`: on an accepted slot or at the end of the directory. -/
structure SlotScan (test : DirEntry → Option Bool) (dirSize : ℤ) (buf : Mem) (i : ℕ) (found : Bool) (j : ℕ) : Prop where
  le : i ≤ j
  miss : ∀ l, i ≤ l → l < j → (lab4DirEntrySize * l : ℕ) < dirSize ∧ test (entryAt buf l) = some false
  hit : found = true → (lab4DirEntrySize * j : ℕ) < dirSize ∧ test (entryAt buf j) = some true
  stop : found = false → dirSize ≤ (lab4DirEntrySize * j : ℕ)

variable {test : DirEntry → Option Bool} {dirSize : ℤ} {buf buf' : Mem}

theorem slotLoop_scan {left i j : ℕ} {found : Bool} (h : slotLoop test dirSize buf left i = some (found,j)) :
    SlotScan test dirSize buf i found j ∧ j ≤ i + left ∧ (found = true → j < i + left) := by
  induction left generalizing i with
  | zero =>
    rw [slotLoop] at h
    split at h
    · cases h
    · next hs =>
      cases h
      exact ⟨⟨le_rfl,fun l _ _ => by omega,nofun,fun _ => not_lt.mp hs⟩,le_rfl,nofun⟩
  | succ left ih =>
    rw [slotLoop] at h
    split at h
    · next hs =>
      split at h
      · cases h
      · next ht =>
        cases h
        exact ⟨⟨le_rfl,fun l _ _ => by omega,fun _ => ⟨hs,ht⟩,nofun⟩,by omega,fun _ => by omega⟩
      · next ht =>
        obtain ⟨hj,hle,hlt⟩ := ih h
        refine ⟨⟨by have := hj.le; omega,fun l hl hlj => ?_,hj.hit,hj.stop⟩,by omega,fun hf => by have := hlt hf; omega⟩
        rcases Nat.eq_or_lt_of_le hl with rfl | hl
        · exact ⟨hs,ht⟩
        · exact hj.miss l hl hlj
    · next hs =>
      cases h
      exact ⟨⟨le_rfl,fun l _ _ => by omega,nofun,fun _ => not_lt.mp hs⟩,by omega,nofun⟩

/-- A test that is defined everywhere gives a loop that is, as long as the buffer holds the directory. -/
theorem slotLoop_isSome (ht : ∀ d, (test d).isSome) {left i : ℕ} (hs : dirSize ≤ (lab4DirEntrySize * (i + left) : ℕ)) :
    (slotLoop test dirSize buf left i).isSome := by
  induction left generalizing i with
  | zero =>
    rw [slotLoop, if_neg (by simpa using hs)]
    rfl
  | succ left ih =>
    rw [slotLoop]
    split
    · obtain ⟨b,hb⟩ := Option.isSome_iff_exists.mp (ht (entryAt buf i))
      rw [hb]
      cases b with
      | true => rfl
      | false => exact ih (by rwa [Nat.add_right_comm, Nat.add_assoc])
    · rfl

theorem slotLoop_congr {left i : ℕ} (h : ∀ l, l < i + left → entryAt buf l = entryAt buf' l) :
    slotLoop test dirSize buf left i = slotLoop test dirSize buf' left i := by
  induction left generalizing i with
  | zero => rfl
  | succ left ih => rw [slotLoop, slotLoop, h i (by omega), ih (fun l hl => h l (by omega))]

/-- Only the outcomes of the test inside the directory matter. -/
theorem slotLoop_congr_test {left i : ℕ}
    (h : ∀ l, ((lab4DirEntrySize * l : ℕ) : ℤ) < dirSize → test (entryAt buf l) = test (entryAt buf' l)) :
    slotLoop test dirSize buf left i = slotLoop test dirSize buf' left i := by
  induction left generalizing i with
  | zero => rfl
  | succ left ih =>
    rw [slotLoop, slotLoop, ih]
    split
    · next hs => rw [h i hs]
    · rfl

/-- Two loops over the same slots stop alike. -/
theorem SlotScan.unique {i j j' : ℕ} {found found' : Bool} (h : SlotScan test dirSize buf i found j)
    (h' : SlotScan test dirSize buf i found' j') : found = found' ∧ j = j' := by
  have hlt : ∀ {f f' : Bool} {a b : ℕ}, SlotScan test dirSize buf i f a → SlotScan test dirSize buf i f' b → ¬a < b := by
    intro f f' a b ha hb hab
    have hm := hb.miss a ha.le hab
    cases f with
    | true =>
      have hh := (ha.hit rfl).2
      rw [hm.2] at hh
      cases hh
    | false =>
      have := ha.stop rfl
      omega
  have hj : j = j' := by
    have := hlt h h'
    have := hlt h' h
    omega
  subst hj
  refine ⟨?_,rfl⟩
  cases found <;> cases found' <;> try rfl
  · have := h.stop rfl
    have := (h'.hit rfl).1
    omega
  · have := h'.stop rfl
    have := (h.hit rfl).1
    omega

/-! ## Names -/

def lookupHit (filename : List UInt8) (d : DirEntry) : Bool :=
  decide (d.dFlag = lab4DirUsed ∧ cstr d.dFilename = filename)

theorem isPrefixOf_length {α : Type} [DecidableEq α] {l l' : List α} (h : l.isPrefixOf l' = true) : l.length ≤ l'.length :=
  (List.isPrefixOf_iff_prefix.mp h).length_le

/-- Comparing with a name that fits the field is always defined. -/
theorem lookupTest_eq {filename : List UInt8} (h : filename.length < fnameSize) (d : DirEntry) :
    lookupTest filename d = some (lookupHit filename d) := by
  unfold lookupTest lookupHit
  split
  · next hf =>
    unfold strcmpName
    split
    · simp [hf]
    · next hn =>
      have hne : cstr d.dFilename ≠ filename := fun hc => hn (hc ▸ h)
      rw [if_neg (fun hp => by have := isPrefixOf_length hp; omega)]
      simp [hne]
  · next hf => simp [hf]

theorem lookupTest_isSome {filename : List UInt8} (h : filename.length < fnameSize) (d : DirEntry) :
    (lookupTest filename d).isSome := by
  rw [lookupTest_eq h]
  rfl

/-- A name that a file name field can hold: no NUL, and shorter than the field. -/
structure ValidName (name : List UInt8) : Prop where
  pos : 0 < name.length
  lt : name.length < fnameSize
  noNul : (0 : UInt8) ∉ name

theorem cstr_strcpyName {name : List UInt8} (hlt : name.length < fnameSize) (hnul : (0 : UInt8) ∉ name) :
    cstr (strcpyName name) = name := by
  have hlist : List.ofFn (strcpyName name) = name ++ List.replicate (fnameSize - name.length) 0 := by
    apply List.ext_getElem
    · rw [List.length_ofFn, List.length_append, List.length_replicate]
      exact (Nat.add_sub_cancel' hlt.le).symm
    · intro i hi hi'
      rw [List.getElem_ofFn, strcpyName, List.getElem_append]
      split
      · next hin => exact List.getD_eq_getElem name 0 hin
      · next hin => rw [List.getElem_replicate, List.getD_eq_default name 0 (Nat.not_lt.mp hin)]
  have hname : ∀ a ∈ name, decide (a ≠ 0) = true := by
    intro a ha
    exact decide_eq_true (fun h0 => hnul (h0 ▸ ha))
  rw [cstr, hlist, List.takeWhile_append_of_pos hname,
    show fnameSize - name.length = (fnameSize - name.length - 1) + 1 by omega, List.replicate_succ,
    List.takeWhile_cons_of_neg (by simp), List.append_nil]

/-! ## Lookup -/

/-- Slot `i` in the block of record `k`. -/
def Iom.slotEntry (m : Iom) (k i : ℕ) : DirEntry := entryAt (m.dev.bytes.shift (m.dataAddr k)) i

/-- The block of the record fits an `int`, if there is such a record. -/
def Iom.AddrAt (m : Iom) (D : UInt32) : Prop := 2 ≤ D.toNat → D.toNat < m.inodeNum → m.dataAddr D.toNat < 2^31

/-- The slot loop over the block of record `k`. -/
def Iom.scan (m : Iom) (test : DirEntry → Option Bool) (k : ℕ) : Option (Bool × ℕ) :=
  slotLoop test (m.inode k).iSize.toInt (m.dev.bytes.shift (m.dataAddr k)) (m.clusterSize / lab4DirEntrySize) 0

/-- The entry a lookup for deletion hands out. -/
def DirEntry.deleted (d : DirEntry) : DirEntry := { d with dFlag := lab4DirDeleted }

/-- What a successful lookup returns for slot `i` of record `k`. -/
def Iom.lookupResult (m : Iom) (k i : ℕ) (isdelete : ℤ) : ℤ × DirEntry × ℤ :=
  if isdelete = 1 then (lab4Success,(m.slotEntry k i).deleted,toS32 (lab4DirEntrySize * i : ℕ))
  else (lab4Success,m.slotEntry k i,-1)

theorem lookupResult_delete (m : Iom) (k i : ℕ) :
    m.lookupResult k i 1 = (lab4Success,(m.slotEntry k i).deleted,toS32 (lab4DirEntrySize * i : ℕ)) := if_pos rfl

theorem lookupResult_keep (m : Iom) (k i : ℕ) {isdelete : ℤ} (h : isdelete ≠ 1) :
    m.lookupResult k i isdelete = (lab4Success,m.slotEntry k i,-1) := if_neg h

/-- A block read into a cluster buffer shows the slots of the device. -/
theorem entryAt_read {bytes : Mem} {cs i : ℕ} (h : i < cs / lab4DirEntrySize) :
    entryAt (splice zeros 0 cs bytes) i = entryAt bytes i := by
  have hle := Nat.mul_le_mul_right lab4DirEntrySize (Nat.succ_le_of_lt h)
  have hdiv := Nat.div_mul_le_self cs lab4DirEntrySize
  have hsz := dirEntryCodec_size
  unfold lab4DirEntrySize at *
  rw [entryAt, dirEntryCodec.get_splice_inside (Nat.zero_le _) (by simp only [lab4DirEntrySize]; omega)]
  rfl

variable {u : Prop} {e : Env} {s : Sys}

/-- `lab4_lookup` with the calls it makes: two allocations and then one transfer, which may fail and does
fail where the address of the block is negative as an `int`. -/
theorem wp_lab4Lookup_ticks {D : UInt32} {fileEntry : DirEntry} {filename : List UInt8} {isdelete : ℤ}
    {Q : ℤ × DirEntry × ℤ → Sys → Prop} (hm : s.iom.Mounted)
    (hlow : D.toNat < 2 → Q (lab4Error,fileEntry,isdelete) s)
    (hmalloc : ∀ s', s'.iom = s.iom → ¬e.MallocOk → Q (lab4Error,fileEntry,isdelete) s')
    (hio : ∀ s', s'.iom = s.iom → s'.clock = s.clock + 3 → 2 ≤ D.toNat → D.toNat < s.iom.inodeNum →
      e.ioFails (s.clock + 2) = true ∨ 2^31 ≤ s.iom.dataAddr D.toNat → Q (lab4Error,fileEntry,isdelete) s')
    (hbig : 2 ≤ D.toNat → s.iom.inodeNum ≤ D.toNat → u)
    (hundef : 2 ≤ D.toNat → D.toNat < s.iom.inodeNum → s.iom.scan (lookupTest filename) D.toNat = none → u)
    (hfound : ∀ s' i, s'.iom = s.iom → s'.clock = s.clock + 3 → e.ioFails (s.clock + 2) = false →
      s.iom.dataAddr D.toNat < 2^31 → 2 ≤ D.toNat → D.toNat < s.iom.inodeNum → s.iom.scan (lookupTest filename) D.toNat = some (true,i) →
      Q (s.iom.lookupResult D.toNat i isdelete) s')
    (hnot : ∀ s' i, s'.iom = s.iom → s'.clock = s.clock + 3 → e.ioFails (s.clock + 2) = false →
      s.iom.dataAddr D.toNat < 2^31 → 2 ≤ D.toNat → D.toNat < s.iom.inodeNum → s.iom.scan (lookupTest filename) D.toNat = some (false,i) →
      Q (-enoent,fileEntry,isdelete) s') :
    wp u (lab4Lookup D fileEntry filename isdelete) Q e s := by
  unfold lab4Lookup doReadInode
  rw [wp_bind, wp_ite, wp_pure, wp_pure]
  refine ⟨hlow,fun hlo => ?_⟩
  rw [lab4RootIno, Nat.not_lt] at hlo
  rw [wp_bind, wp_malloc, wp_ite, wp_pure, wp_pure]
  refine ⟨fun hn => hmalloc _ rfl (fun hok => ?_),fun _ => ?_⟩
  · rw [hok] at hn
    cases hn
  rw [wp_bind, wp_getIom, wp_ite, wp_undefined]
  refine ⟨hbig hlo,fun hhi => ?_⟩
  rw [Sys.next_iom, Nat.not_le] at hhi
  rw [wp_pure, wp_bind, wp_malloc, wp_ite, wp_pure]
  refine ⟨fun hn => hmalloc _ rfl (fun hok => ?_),fun _ => ?_⟩
  · rw [hok] at hn
    cases hn
  simp only [wp_bind, wp_getIom, Sys.next_iom]
  rw [wp_pread]
  refine ⟨fun hf => ?_,fun hf => ⟨fun hn => absurd hn (Nat.lt_irrefl _),fun _ => ?_⟩⟩
  · rw [if_pos rfl, wp_pure]
    refine hio _ rfl rfl hlo hhi (Or.symm (hf.imp_left (fun hneg => ?_)))
    by_contra ha
    have ha' : (s.iom.inode D.toNat).blocknr = (s.iom.dataAddr D.toNat : ℕ) :=
      Inode.blocknr_eq (Nat.not_le.mp ha)
    rw [ha'] at hneg
    omega
  rw [not_or, Bool.not_eq_true] at hf
  have haddr : s.iom.dataAddr D.toNat < 2^31 := by
    by_contra ha
    exact hf.1 (toS32_neg (Nat.not_lt.mp ha) (UInt32.toNat_lt _))
  have ha : (s.iom.inode D.toNat).blocknr = (s.iom.dataAddr D.toNat : ℕ) := Inode.blocknr_eq haddr
  rw [if_neg hm.clusterSize_ne_error, wp_bind, wp_lift, ha, Int.toNat_natCast]
  have hscan : slotLoop (lookupTest filename) (s.iom.inode D.toNat).iSize.toInt
      (splice zeros 0 s.iom.clusterSize (s.iom.dev.bytes.shift (s.iom.dataAddr D.toNat)))
      (s.iom.clusterSize / lab4DirEntrySize) 0 = s.iom.scan (lookupTest filename) D.toNat :=
    slotLoop_congr (fun l hl => entryAt_read (by omega))
  simp only [Sys.next_iom, hscan]
  refine ⟨hundef hlo hhi,?_⟩
  rintro ⟨found,i⟩ hsome
  cases found with
  | false =>
    simp only [Bool.false_eq_true, ↓reduceIte, wp_pure]
    exact hnot _ i rfl rfl hf.2 haddr hlo hhi hsome
  | true =>
    have hlt := (slotLoop_scan hsome).2.2 rfl
    have hread : entryAt (splice zeros 0 s.iom.clusterSize (s.iom.dev.bytes.shift (s.iom.dataAddr D.toNat))) i =
        s.iom.slotEntry D.toNat i := entryAt_read (by omega)
    have hres := fun s' h1 h2 => hfound s' i h1 h2 hf.2 haddr hlo hhi hsome
    unfold Iom.lookupResult at hres
    rw [if_pos rfl, hread, wp_ite, wp_pure, wp_pure]
    refine ⟨fun hd => ?_,fun hd => ?_⟩
    · have hr := hres s.next.next.next rfl rfl
      rwa [if_pos hd] at hr
    · have hr := hres s.next.next.next rfl rfl
      rwa [if_neg hd] at hr

/-- `lab4_lookup` returns what the slot loop over the record's block finds. -/
theorem wp_lab4Lookup {D : UInt32} {fileEntry : DirEntry} {filename : List UInt8} {isdelete : ℤ}
    {Q : ℤ × DirEntry × ℤ → Sys → Prop} (hio : e.IoOk) (hm : s.iom.Mounted)
    (haddr : s.iom.AddrAt D)
    (herr : ∀ s', s'.iom = s.iom → D.toNat < 2 ∨ ¬e.MallocOk → Q (lab4Error,fileEntry,isdelete) s')
    (hbig : 2 ≤ D.toNat → s.iom.inodeNum ≤ D.toNat → u)
    (hundef : 2 ≤ D.toNat → D.toNat < s.iom.inodeNum → s.iom.scan (lookupTest filename) D.toNat = none → u)
    (hfound : ∀ s' i, s'.iom = s.iom → 2 ≤ D.toNat → D.toNat < s.iom.inodeNum →
      s.iom.scan (lookupTest filename) D.toNat = some (true,i) → Q (s.iom.lookupResult D.toNat i isdelete) s')
    (hnot : ∀ s' i, s'.iom = s.iom → 2 ≤ D.toNat → D.toNat < s.iom.inodeNum →
      s.iom.scan (lookupTest filename) D.toNat = some (false,i) → Q (-enoent,fileEntry,isdelete) s') :
    wp u (lab4Lookup D fileEntry filename isdelete) Q e s := by
  refine wp_lab4Lookup_ticks hm (fun hlow => herr s rfl (.inl hlow)) (fun s' h hn => herr s' h (.inr hn))
    (fun s' _ _ hlo hhi hf => ?_) hbig hundef (fun s' i h _ _ _ => hfound s' i h) (fun s' i h _ _ _ => hnot s' i h)
  rw [hio] at hf
  have := haddr hlo hhi
  rcases hf with hf | hf
  · cases hf
  · omega

/-- A lookup changes nothing, whatever it finds. -/
theorem wp_lab4Lookup_any {D : UInt32} {fileEntry : DirEntry} {filename : List UInt8} {isdelete : ℤ}
    {Q : ℤ × DirEntry × ℤ → Sys → Prop} (hm : s.iom.Mounted) (h : ∀ r s', s'.iom = s.iom → Q r s') :
    wp True (lab4Lookup D fileEntry filename isdelete) Q e s :=
  wp_lab4Lookup_ticks hm (fun _ => h _ s rfl) (fun s' h' _ => h _ s' h') (fun s' h' _ _ _ _ => h _ s' h')
    (fun _ _ => trivial) (fun _ _ _ => trivial) (fun s' _ h' _ _ _ _ _ _ => h _ s' h') (fun s' _ h' _ _ _ _ _ _ => h _ s' h')

end SimpleFS
