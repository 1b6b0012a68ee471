import SimpleFS.Consistency

/-! # Lookups and listings

`lab4_lookup` and `do_readdir` are loops of their own over the raw slots. In a sane state both say what
the directory binds.
-/
namespace SimpleFS
open Bytes Machine Prog SlotTree

variable {e : Env} {s : Sys} {D k : ℕ} {x : List UInt8}

/-! ## Lookups -/

/-- What `lab4_lookup` returns for a name in directory `D`, with the number in the entry it hands out. -/
def lookupIn (e : Env) (s : Sys) (D : ℕ) (x : List UInt8) : Option (ℤ × ℕ) :=
  (lab4Lookup (UInt32.ofNat D) DirEntry.zero x 0 e s).map (fun p => (p.1.1,p.1.2.1.dIno.toNat))

theorem toNat_dir (h : s.iom.Sane) (hD : s.iom.tree.kind D = some .dir) : (UInt32.ofNat D).toNat = D := by
  have := (Iom.Mounted.dir_live h.ledger hD).2
  have := h.mounted.inodeNum_le
  exact UInt32.toNat_ofNat_of_lt' (lt_of_lt_of_le (by omega : D < 256) (by decide))

/-- A lookup in a directory returns, and changes nothing. -/
theorem wp_lookup {u : Prop} {P : UInt32} {isdelete : ℤ} {Q : ℤ × DirEntry × ℤ → Sys → Prop} (he : e.Nominal)
    (h : s.iom.Sane) (hP : P.toNat = D) (hD : s.iom.tree.kind D = some .dir) (hx : x.length < fnameSize)
    (hfound : ∀ s' i k, s'.iom = s.iom → s.iom.tree.slot D i = some (x,k) → (s.iom.slotEntry D i).dIno.toNat = k →
      Q (s.iom.lookupResult D i isdelete) s')
    (hnot : ∀ s', s'.iom = s.iom → (∀ k, ¬s.iom.tree.Binds D x k) → Q (-enoent,DirEntry.zero,isdelete) s') :
    wp u (lab4Lookup P DirEntry.zero x isdelete) Q e s := by
  obtain ⟨hlo,hhi⟩ := Iom.Mounted.dir_live h.ledger hD
  obtain ⟨ha,hle⟩ := Iom.Mounted.dir_addr h.ledger hD
  have hcs := h.mounted.cluster_le
  refine wp_lab4Lookup he.io h.mounted (fun _ _ => ?_) (fun _ _ hn => ?_) (fun _ hn => ?_) (fun _ _ hn => ?_)
    (fun s' i hs' _ _ hs => ?_) (fun s' i hs' _ _ hs => ?_)
  · rw [hP]
    omega
  · rcases hn with hn | hn
    · omega
    · exact absurd he.malloc hn
  · omega
  · rw [hP] at hn
    obtain ⟨_,hs⟩ := Option.isSome_iff_exists.mp (h.mounted.scan_isSome h.ledger hD (lookupTest_isSome hx))
    cases hn.symm.trans hs
  · rw [hP] at hs ⊢
    exact hfound s' i _ hs' (Iom.Mounted.scan_found h.ledger hD hx hs).2 rfl
  · rw [hP] at hs
    exact hnot s' hs' (Iom.Mounted.scan_not_found h.ledger hD hx hs)

theorem lookupIn_cases (he : e.Nominal) (h : s.iom.Sane) (hD : s.iom.tree.kind D = some .dir) (hx : x.length < fnameSize) :
    (∃ k, lookupIn e s D x = some (lab4Success,k) ∧ s.iom.tree.Binds D x k) ∨
      (lookupIn e s D x = some (-enoent,0) ∧ ∀ k, ¬s.iom.tree.Binds D x k) := by
  have hwp : wp False (lab4Lookup (UInt32.ofNat D) DirEntry.zero x 0)
      (fun r _ => (∃ k, (r.1,r.2.1.dIno.toNat) = (lab4Success,k) ∧ s.iom.tree.Binds D x k) ∨
        ((r.1,r.2.1.dIno.toNat) = (-enoent,0) ∧ ∀ k, ¬s.iom.tree.Binds D x k)) e s := by
    refine wp_lookup he h (toNat_dir h hD) hD hx (fun s' i k _ hs hk => .inl ⟨k,?_,i,hs⟩) (fun s' _ hn => .inr ⟨rfl,hn⟩)
    rw [lookupResult_keep _ _ _ (by decide), hk]
  obtain ⟨r,s',hrun,hr⟩ := wp_false.mp hwp
  have hl : lookupIn e s D x = some (r.1,r.2.1.dIno.toNat) := by
    unfold lookupIn
    rw [hrun]
    rfl
  rw [hl]
  rcases hr with ⟨k,hk,hb⟩ | ⟨hz,hn⟩
  · exact .inl ⟨k,congrArg some hk,hb⟩
  · exact .inr ⟨congrArg some hz,hn⟩

theorem success_ne_enoent : lab4Success ≠ -enoent := by decide

/-- Names are bound once. -/
theorem binds_unique (hu : Unique s.iom.tree) {l : ℕ} (hk : s.iom.tree.Binds D x k) (hl : s.iom.tree.Binds D x l) : k = l := by
  obtain ⟨i,hi⟩ := hk
  obtain ⟨j,hj⟩ := hl
  obtain rfl := hu D i j x k l hi hj
  cases hi.symm.trans hj
  rfl

theorem lookupIn_success (he : e.Nominal) (h : s.iom.Sane) (hu : Unique s.iom.tree) (hD : s.iom.tree.kind D = some .dir) (hx : x.length < fnameSize) :
    lookupIn e s D x = some (lab4Success,k) ↔ s.iom.tree.Binds D x k := by
  rcases lookupIn_cases he h hD hx with ⟨l,hl,hb⟩ | ⟨hl,hn⟩
  · rw [hl]
    constructor
    · intro hk
      cases hk
      exact hb
    · intro hk
      rw [binds_unique hu hk hb]
  · rw [hl]
    refine ⟨fun hk => ?_,fun hk => absurd hk (hn k)⟩
    exact absurd (congrArg Prod.fst (Option.some.inj hk)).symm success_ne_enoent

theorem lookupIn_enoent (he : e.Nominal) (h : s.iom.Sane) (hD : s.iom.tree.kind D = some .dir) (hx : x.length < fnameSize) :
    lookupIn e s D x = some (-enoent,0) ↔ ∀ k, ¬s.iom.tree.Binds D x k := by
  rcases lookupIn_cases he h hD hx with ⟨l,hl,hb⟩ | ⟨hl,hn⟩
  · rw [hl]
    refine ⟨fun hk => ?_,fun hk => absurd hb (hk l)⟩
    exact absurd (congrArg Prod.fst (Option.some.inj hk)) success_ne_enoent
  · exact ⟨fun _ => hn,fun _ => hl⟩

/-- The same bindings, the same lookups. -/
theorem lookupIn_congr {e' : Env} {s' : Sys} (he : e.Nominal) (he' : e'.Nominal) (h : s.iom.Sane) (h' : s'.iom.Sane)
    (hu' : Unique s'.iom.tree) (hD : s.iom.tree.kind D = some .dir) (hD' : s'.iom.tree.kind D = some .dir) (hx : x.length < fnameSize)
    (hb : ∀ k, s'.iom.tree.Binds D x k ↔ s.iom.tree.Binds D x k) : lookupIn e' s' D x = lookupIn e s D x := by
  rcases lookupIn_cases he h hD hx with ⟨k,hl,hk⟩ | ⟨hl,hn⟩
  · rw [hl, lookupIn_success he' h' hu' hD' hx, hb]
    exact hk
  · rw [hl, lookupIn_enoent he' h' hD' hx]
    exact fun k hk => hn k ((hb k).mp hk)

/-- Comparing a name with an entry looks at what the entry binds. -/
theorem lookupTest_congr {d d' : DirEntry} (h : d'.binding = d.binding) : lookupTest x d' = lookupTest x d := by
  unfold DirEntry.binding at h
  unfold lookupTest strcmpName
  split at h
  · next hf' =>
    split at h
    · next hf =>
      rw [Option.some.injEq, Prod.mk.injEq] at h
      rw [if_pos hf, if_pos hf', h.1]
    · cases h
  · next hf' =>
    split at h
    · cases h
    · next hf => rw [if_neg hf, if_neg hf']

/-- What the slot loop of a lookup makes of its result. -/
def scanResult (m : Iom) (D : ℕ) (p : Bool × ℕ) : ℤ × ℕ :=
  if p.1 = true then (lab4Success,(m.slotEntry D p.2).dIno.toNat) else (-enoent,0)

theorem lookupIn_scan (he : e.Nominal) (h : s.iom.Sane) (hD : s.iom.tree.kind D = some .dir) :
    lookupIn e s D x = (s.iom.scan (lookupTest x) D).map (scanResult s.iom D) := by
  obtain ⟨hlo,hhi⟩ := Iom.Mounted.dir_live h.ledger hD
  obtain ⟨ha,hle⟩ := Iom.Mounted.dir_addr h.ledger hD
  have hcs := h.mounted.cluster_le
  have hP := toNat_dir h hD
  have hwp : wp (s.iom.scan (lookupTest x) D = none) (lab4Lookup (UInt32.ofNat D) DirEntry.zero x 0)
      (fun r _ => (s.iom.scan (lookupTest x) D).map (scanResult s.iom D) = some (r.1,r.2.1.dIno.toNat)) e s := by
    refine wp_lab4Lookup he.io h.mounted (fun _ _ => ?_) (fun _ _ hn => ?_) (fun _ hn => ?_) (fun _ _ hn => by rwa [hP] at hn)
      (fun s' i hs' _ _ hs => ?_) (fun s' i hs' _ _ hs => ?_)
    · rw [hP]
      omega
    · rcases hn with hn | hn
      · omega
      · exact absurd he.malloc hn
    · omega
    · rw [hP] at hs ⊢
      rw [hs, lookupResult_keep _ _ _ (by decide)]
      rfl
    · rw [hP] at hs
      rw [hs]
      rfl
  unfold lookupIn
  cases hrun : lab4Lookup (UInt32.ofNat D) DirEntry.zero x 0 e s with
  | none =>
    have hnone : s.iom.scan (lookupTest x) D = none := by
      by_contra hn
      rw [show (s.iom.scan (lookupTest x) D = none) = False from eq_false hn] at hwp
      obtain ⟨r,s',hr,_⟩ := wp_false.mp hwp
      cases hr.symm.trans hrun
    rw [hnone]
    rfl
  | some p => exact ((wp_of_eq hrun).mp hwp).symm

/-- Two volumes with one tree answer every lookup alike. -/
theorem lookupIn_of_tree {e' : Env} {s' : Sys} (he : e.Nominal) (he' : e'.Nominal) (h : s.iom.Sane) (h' : s'.iom.Sane)
    (hcs : s'.iom.clusterSize = s.iom.clusterSize) (ht : s'.iom.tree = s.iom.tree) (hD : s.iom.tree.kind D = some .dir) :
    lookupIn e' s' D x = lookupIn e s D x := by
  have hD' : s'.iom.tree.kind D = some .dir := by rwa [ht]
  have hslot : ∀ i < lab4DirEntryNum, (s'.iom.slotEntry D i).binding = (s.iom.slotEntry D i).binding := by
    intro i hi
    rw [← Iom.Mounted.tree_slot h'.ledger hD' hi, ← Iom.Mounted.tree_slot h.ledger hD hi, ht]
  have hscan : s'.iom.scan (lookupTest x) D = s.iom.scan (lookupTest x) D := by
    unfold Iom.scan
    rw [Iom.Mounted.dir_size h'.ledger hD', Iom.Mounted.dir_size h.ledger hD, hcs]
    refine slotLoop_congr_test (fun l hl => lookupTest_congr (hslot l ?_))
    unfold lab4DirEntryNum lab4DirEntrySize at *
    omega
  rw [lookupIn_scan he' h' hD', lookupIn_scan he h hD, hscan]
  refine Option.map_congr (fun p hp => ?_)
  obtain ⟨found,i⟩ := p
  cases found with
  | false => rfl
  | true =>
    have hsc := (slotLoop_scan hp).1.hit rfl
    have hi : i < lab4DirEntryNum := (Iom.Mounted.scan_bound h.ledger hD hp).1 rfl
    have hused : ∀ d : DirEntry, lookupTest x d = some true → d.dFlag = lab4DirUsed := fun d hd => by
      by_contra hn
      rw [lookupTest, if_neg hn] at hd
      cases hd
    have hb := hslot i hi
    have hu := hused (s.iom.slotEntry D i) hsc.2
    have hu' : (s'.iom.slotEntry D i).dFlag = lab4DirUsed := by
      by_contra hn
      rw [binding_of_not_used hn, binding_of_used hu] at hb
      cases hb
    rw [binding_of_used hu, binding_of_used hu', Option.some.injEq, Prod.mk.injEq] at hb
    exact congrArg (Prod.mk lab4Success) hb.2

/-! ## Listings -/

/-- What `filler` gets for an entry. -/
def Iom.filled (m : Iom) (d : DirEntry) : Option Filled :=
  if d.dFlag = lab4DirUsed then
    some ⟨cstr d.dFilename,d.dIno,if (m.inode d.dIno.toNat).iType = lab4TypeDirectory then dtDir <<< 12 else dtReg <<< 12,2⟩
  else none

/-- A used entry that a listing can hand on: it names a record of the table, and its name ends. -/
def Iom.Reportable (m : Iom) (d : DirEntry) : Prop :=
  d.dFlag = lab4DirUsed → 2 ≤ d.dIno.toNat ∧ d.dIno.toNat < m.inodeNum ∧ (cstr d.dFilename).length < fnameSize

instance (m : Iom) (d : DirEntry) : Decidable (m.Reportable d) := inferInstanceAs (Decidable (_ → _))

/-- What the slots `j, …, j + count - 1` of a buffer hold for `filler`. -/
def Iom.filledSlots (m : Iom) (buf : Mem) (j count : ℕ) : List Filled :=
  (List.range' j count).filterMap (fun i => m.filled (entryAt buf i))

theorem filledSlots_succ {m : Iom} {buf : Mem} {j count : ℕ} :
    m.filledSlots buf j (count + 1) = (m.filled (entryAt buf j)).toList ++ m.filledSlots buf (j + 1) count := by
  unfold Iom.filledSlots
  rw [List.range'_succ, List.filterMap_cons]
  cases m.filled (entryAt buf j) <;> rfl

theorem filled_binding (m : Iom) (d : DirEntry) : (m.filled d).map (fun f => (f.name,f.stIno.toNat)) = d.binding := by
  unfold Iom.filled DirEntry.binding
  split <;> rfl

/-- The listing loop over `count` rounds. The slots it looks at start at `j`, whatever the byte position says. -/
theorem wp_readdirLoop {u : Prop} {buf : Mem} {left count a j : ℕ} {Q : List Filled → Sys → Prop} (he : e.MallocOk)
    (hleft : count ≤ left) (hu : ¬(∀ i, j ≤ i → i < j + count → s.iom.Reportable (entryAt buf i)) → u)
    (h : ∀ s', (∀ i, j ≤ i → i < j + count → s.iom.Reportable (entryAt buf i)) → s'.iom = s.iom →
      Q (s.iom.filledSlots buf j count) s') :
    wp u (readdirLoop (lab4DirEntrySize * (a + count) : ℕ) buf left (lab4DirEntrySize * a : ℕ) j) Q e s := by
  induction count generalizing left a j s Q with
  | zero =>
    have hnil : wp u (pure []) Q e s := (wp_pure _).mpr (h s (fun i hi hi' => by omega) rfl)
    have hstop : ¬((lab4DirEntrySize * a : ℕ) : ℤ) < ((lab4DirEntrySize * (a + 0) : ℕ) : ℤ) := by simp
    cases left with
    | zero =>
      rw [readdirLoop, if_neg hstop]
      exact hnil
    | succ left =>
      rw [readdirLoop, if_neg hstop]
      exact hnil
  | succ count ih =>
    obtain ⟨left,rfl⟩ : ∃ l, left = l + 1 := ⟨left - 1,by omega⟩
    have hnext : (((lab4DirEntrySize * a : ℕ) : ℤ) + (lab4DirEntrySize : ℤ)) = ((lab4DirEntrySize * (a + 1) : ℕ) : ℤ) := by
      push_cast
      ring
    have hstop : lab4DirEntrySize * (a + (count + 1)) = lab4DirEntrySize * (a + 1 + count) := by ring
    have hlt : ((lab4DirEntrySize * a : ℕ) : ℤ) < ((lab4DirEntrySize * (a + (count + 1)) : ℕ) : ℤ) := by
      unfold lab4DirEntrySize
      omega
    rw [readdirLoop, if_pos hlt]
    dsimp only
    rw [hnext, hstop]
    -- the first slot and the rest
    have hsplit : s.iom.Reportable (entryAt buf j) → (∀ i, j + 1 ≤ i → i < j + 1 + count → s.iom.Reportable (entryAt buf i)) →
        ∀ i, j ≤ i → i < j + (count + 1) → s.iom.Reportable (entryAt buf i) := fun h0 hrest i hi hi' => by
      rcases Nat.eq_or_lt_of_le hi with rfl | hlt
      · exact h0
      · exact hrest i hlt (by omega)
    have hfirst : ∀ f, s.iom.filled (entryAt buf j) = f → ∀ s', s'.iom = s.iom → s.iom.Reportable (entryAt buf j) →
        (∀ i, j + 1 ≤ i → i < j + 1 + count → s.iom.Reportable (entryAt buf i)) →
        Q (f.toList ++ s.iom.filledSlots buf (j + 1) count) s' := fun f hf s' hs' h0 hrest => by
      rw [← hf, ← filledSlots_succ]
      exact h s' (hsplit h0 hrest) hs'
    have htail : s.iom.Reportable (entryAt buf j) →
        ¬(∀ i, j + 1 ≤ i → i < j + 1 + count → s.iom.Reportable (entryAt buf i)) → u := fun _ hn =>
      hu (fun hall => hn (fun i hi hi' => hall i (by omega) (by omega)))
    have hhead : ¬s.iom.Reportable (entryAt buf j) → u := fun hn => hu (fun hall => hn (hall j le_rfl (by omega)))
    by_cases hf : (entryAt buf j).dFlag = lab4DirUsed
    · have hfilled : s.iom.filled (entryAt buf j) = some _ := if_pos hf
      rw [if_pos hf, wp_bind]
      refine wp_doReadInode (fun s1 _ hn => ?_) (fun _ hn => ?_) (fun s1 h1 h2 hk => ?_)
      · dsimp only
        rw [wp_undefined]
        refine hhead (fun hr => ?_)
        rcases hn with hn | hn
        · exact absurd (hr hf).1 (Nat.not_le.mpr hn)
        · exact absurd he hn
      · exact hhead (fun hr => absurd (hr hf).2.1 (Nat.not_lt.mpr hn))
      · dsimp only
        rw [wp_ite, wp_undefined]
        refine ⟨fun hbig => hhead (fun hr => absurd (hr hf).2.2 (Nat.not_lt.mpr hbig)),fun hname => ?_⟩
        have h0 : s.iom.Reportable (entryAt buf j) := fun _ => ⟨h2,hk,Nat.not_le.mp hname⟩
        rw [wp_bind]
        refine ih (by omega) (fun hn => htail h0 (h1 ▸ hn)) (fun s2 hrest h2' => ?_)
        rw [h1] at hrest h2' ⊢
        rw [wp_pure]
        exact hfirst _ hfilled s2 h2' h0 hrest
    · have h0 : s.iom.Reportable (entryAt buf j) := fun hn => absurd hn hf
      rw [if_neg hf]
      exact ih (by omega) (htail h0) (fun s1 hrest h1 => hfirst none (if_neg hf) s1 h1 h0 hrest)

/-- What the slots of a record's block hold for `filler`. -/
def Iom.listed (m : Iom) (p : Inode) (j count : ℕ) : List Filled :=
  m.filledSlots (m.dev.bytes.shift (p.iBlocks 0).toNat) j count

/-- Slot `i` of a record's block. -/
def Iom.blockEntry (m : Iom) (p : Inode) (i : ℕ) : DirEntry := entryAt (m.dev.bytes.shift (p.iBlocks 0).toNat) i

/-- `do_readdir` on a block of `n` slots makes `n - k` rounds, from slot 0 on. -/
theorem wp_doReaddir_rounds {u : Prop} {p : Inode} {n k : ℕ} {Q : ℤ × List Filled → Sys → Prop} (he : e.Nominal)
    (hsize : p.iSize.toInt = (lab4DirEntrySize * n : ℕ)) (hn : lab4DirEntrySize * n < 2^31) (hk : k ≤ n)
    (hu : ¬(∀ i < n - k, s.iom.Reportable (s.iom.blockEntry p i)) → u)
    (h : ∀ s', (∀ i < n - k, s.iom.Reportable (s.iom.blockEntry p i)) → s'.iom = s.iom →
      Q (lab4Success,s.iom.listed p 0 (n - k)) s') : wp u (doReaddir p k) Q e s := by
  have hcap : p.iSize.toUInt64.toNat = lab4DirEntrySize * n := by
    rw [Int64.toUInt64_toNat (by omega), hsize, Int.toNat_natCast]
  have hslots : lab4DirEntrySize * n / lab4DirEntrySize = n := Nat.mul_div_cancel_left n (by decide)
  have hstart : toS32 ((k : ℤ) * (lab4DirEntrySize : ℤ)) = ((lab4DirEntrySize * k : ℕ) : ℤ) := by
    have := Nat.mul_le_mul_left lab4DirEntrySize hk
    rw [show (k : ℤ) * (lab4DirEntrySize : ℤ) = ((lab4DirEntrySize * k : ℕ) : ℤ) by push_cast; ring, toS32_natCast (by omega)]
  have hrounds : readdirLoop ((lab4DirEntrySize * n : ℕ) : ℤ) = readdirLoop ((lab4DirEntrySize * (k + (n - k)) : ℕ) : ℤ) := by
    rw [Nat.add_sub_cancel' hk]
  have hslot : ∀ i, i < n → entryAt (splice zeros 0 (lab4DirEntrySize * n) (s.iom.dev.bytes.shift (p.iBlocks 0).toNat)) i =
      s.iom.blockEntry p i := fun i hi => entryAt_read (by rw [hslots]; exact hi)
  unfold doReaddir
  rw [wp_bind]
  apply wp_malloc_ok he.malloc
  intro s1 h1
  rw [if_neg (by decide), wp_bind, hcap]
  apply wp_pread_ok he.io (Int.natCast_nonneg _) le_rfl
  intro s2 h2
  rw [h1] at h2
  dsimp only
  rw [if_neg (toS32_ne_error hn), wp_bind, hslots, hstart, hsize, hrounds, Int.toNat_natCast, h1]
  refine wp_readdirLoop he.malloc (Nat.sub_le n k) (fun hbad => hu (fun hall => hbad (fun i _ hi => ?_))) (fun s3 hall h3 => ?_)
  · rw [Nat.zero_add] at hi
    rw [hslot i (by omega), h2]
    exact hall i hi
  · have hlisted : s.iom.filledSlots (splice zeros 0 (lab4DirEntrySize * n) (s.iom.dev.bytes.shift (p.iBlocks 0).toNat)) 0 (n - k) =
        s.iom.listed p 0 (n - k) := by
      refine List.filterMap_congr (fun i hi => ?_)
      have := (List.mem_range'_1.mp hi).2
      rw [hslot i (by omega)]
      rfl
    rw [h2] at hall h3 ⊢
    rw [wp_pure, hlisted]
    refine h s3 (fun i hi => ?_) h3
    rw [← hslot i (by omega)]
    exact hall i (Nat.zero_le i) (by omega)

/-- Names a listing can hand to `filler`. -/
def Iom.NamesFit (m : Iom) : Prop := ∀ D x k, m.tree.Binds D x k → x.length < fnameSize

/-- The listing of a directory: what its slots bind, each slot once. -/
theorem wp_doReaddir {u : Prop} {Q : ℤ × List Filled → Sys → Prop} (he : e.Nominal) (h : s.iom.Whole)
    (hfit : s.iom.NamesFit) (hD : s.iom.tree.kind D = some .dir)
    (hQ : ∀ s' filled, s'.iom = s.iom →
      filled.map (fun f => (f.name,f.stIno.toNat)) = (List.range lab4DirEntryNum).filterMap (s.iom.tree.slot D) →
      Q (lab4Success,filled) s') : wp u (doReaddir (s.iom.inode D) 0) Q e s := by
  have hsize : (s.iom.inode D).iSize.toInt = (lab4DirEntrySize * lab4DirEntryNum : ℕ) := by
    have h4096 : (s.iom.inode D).iSize = 4096 := h.sane.ledger.dir_size hD
    rw [h4096]
    decide
  have hslot : ∀ i < lab4DirEntryNum, (s.iom.blockEntry (s.iom.inode D) i).binding = s.iom.tree.slot D i := fun i hi =>
    (Iom.Mounted.tree_slot h.sane.ledger hD hi).symm
  refine wp_doReaddir_rounds (k := 0) he hsize (by decide) (Nat.zero_le _) (fun hn => absurd (fun i hi hf => ?_) hn)
    (fun s' _ hs' => hQ s' _ hs' ?_)
  · have hb := (hslot i hi).symm.trans (binding_of_used hf)
    have hlive := Iom.live_of_kind (h.bound_live hb)
    exact ⟨hlive.1,hlive.2.1,hfit D _ _ ⟨i,hb⟩⟩
  · rw [Iom.listed, Iom.filledSlots, List.map_filterMap, List.range_eq_range']
    refine List.filterMap_congr (fun i hi => ?_)
    rw [filled_binding]
    exact hslot i (by simpa using (List.mem_range'_1.mp hi).2)

end SimpleFS
