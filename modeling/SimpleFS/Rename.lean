import SimpleFS.Paths
import SimpleFS.Remove

/-! # What a rename does

`do_rename` computes its outcome from the io manager alone: an error and no change, one slot rewritten
in place, or an entry written into another directory and its old slot marked deleted.
-/
namespace SimpleFS
open Bytes Machine Prog

/-- The slot loop for a free slot over the whole block of a record. -/
def Iom.insertScan (m : Iom) (t : Inode) : Option (Bool × ℕ) :=
  slotLoop freeTest t.iSize.toInt (m.dev.bytes.shift (t.iBlocks 0).toNat) (m.clusterSize / lab4DirEntrySize) 0

/-- The io manager after the entry in slot `i` of `p` has moved to slot `j` of `t`, if there is one. -/
def Iom.moveEntry (m : Iom) (p : Inode) (i : ℕ) (t : Inode) (found : Bool) (j : ℕ) : Iom :=
  let d := m.slotEntry p.iIno.toNat i
  (if found = true then m.writeEntry (slotAddr t j) { d with dFlag := lab4DirUsed } else m).writeEntry
    (slotAddr p i) d.deleted

/-- The io manager after the entry in slot `i` of `p` got a new name. -/
def Iom.renameEntry (m : Iom) (p : Inode) (i : ℕ) (name : List UInt8) : Iom :=
  m.writeEntry (slotAddr p i) { m.slotEntry p.iIno.toNat i with dFlag := lab4DirUsed, dFilename := strcpyName name }

/-- The outcome of the second half, for the entry in slot `i` of `p` and the target record `t`. -/
def Iom.intoOutcome (m : Iom) (p : Inode) (i : ℕ) (t : Inode) (name : List UInt8) : Option (ℤ × Iom) :=
  if t.iType = lab4TypeDirectory then
    match m.lookupSlot t.iIno name with
    | none => none
    | some (.ok _) => some (-eexist,m)
    | some (.error res) =>
      if res = lab4Error then some (res,m)
      else match m.insertScan t with
        | none => none
        | some (found,j) => some (lab4Success,m.moveEntry p i t found j)
  else some (-eexist,m)

/-- The outcome behind the lookup of the source, for the entry in slot `i` of `p`. -/
def Iom.targetOutcome (m : Iom) (p : Inode) (i : ℕ) (fromPath toPath : List UInt8) : Option (ℤ × Iom) :=
  match m.readInode toPath with
  | none => none
  | some (.ok none) => none
  | some (.ok (some t)) => m.intoOutcome p i t (lastName fromPath)
  | some (.error res) =>
    if res = lab4Error then some (res,m)
    else match m.readInode (dirName toPath) with
      | some (.ok (some t)) =>
        if p.iIno = t.iIno then some (lab4Success,m.renameEntry p i (lastName toPath))
        else m.intoOutcome p i t (lastName toPath)
      | _ => none

/-- The outcome of `do_rename`; `none` where it is undefined. -/
def Iom.renameOutcome (m : Iom) (fromPath toPath : List UInt8) : Option (ℤ × Iom) :=
  match m.readInode (dirName fromPath) with
  | none => none
  | some (.error res) => some (res,m)
  | some (.ok none) => none
  | some (.ok (some p)) =>
    match m.lookupSlot p.iIno (lastName fromPath) with
    | none => none
    | some (.error res) => some (res,m)
    | some (.ok i) => m.targetOutcome p i fromPath toPath

/-- The directory record and the slot that the path of an entry leads to. -/
def Iom.sourceSlot (m : Iom) (path : List UInt8) : Option (Except ℤ (Inode × ℕ)) :=
  match m.readInode (dirName path) with
  | none => none
  | some (.error res) => some (.error res)
  | some (.ok none) => none
  | some (.ok (some p)) =>
    match m.lookupSlot p.iIno (lastName path) with
    | none => none
    | some (.error res) => some (.error res)
    | some (.ok i) => some (.ok (p,i))

/-- The outcome by what the path of the entry leads to. -/
theorem renameOutcome_source {m : Iom} {fromPath toPath : List UInt8} {r : Option (Except ℤ (Inode × ℕ))} :
    m.sourceSlot fromPath = r → m.renameOutcome fromPath toPath = match r with
      | none => none
      | some (.error res) => some (res,m)
      | some (.ok (p,i)) => m.targetOutcome p i fromPath toPath := by
  rintro rfl
  unfold Iom.renameOutcome Iom.sourceSlot
  rcases m.readInode (dirName fromPath) with _ | (res | (_ | p)) <;> try rfl
  dsimp only
  rcases m.lookupSlot p.iIno (lastName fromPath) with _ | (res | i) <;> rfl

variable {u : Prop} {e : Env} {s : Sys} {p t : Inode} {Q : ℤ → Sys → Prop}

theorem wp_insertEntry {d : DirEntry} {found : Bool} {j : ℕ} {Q : Unit → Sys → Prop} (hio : e.IoOk)
    (h : ∀ s', s'.iom = (if found = true then s.iom.writeEntry (slotAddr t j) d else s.iom) → Q () s') :
    wp u (insertEntry t d found j) Q e s := by
  unfold insertEntry
  cases found with
  | false =>
    rw [if_neg (by decide), wp_pure]
    exact h s rfl
  | true =>
    rw [if_pos rfl, wp_bind]
    apply wp_pwrite_ok hio (by omega)
    intro s1 h1
    rw [wp_pure]
    exact h s1 h1

theorem wp_renameInto {i : ℕ} {name : List UInt8} (hio : e.IoOk) (hm : s.iom.Mounted) (haddr : s.iom.AddrOk)
    (hi : lab4DirEntrySize * i < 2^31) (hp : (p.iBlocks 0).toNat < 2^31) (ht : (t.iBlocks 0).toNat < 2^31)
    (hbad : ¬e.MallocOk → u ∧ ∀ s' res, res ≠ lab4Success → s'.iom = s.iom → Q res s')
    (hu : s.iom.intoOutcome p i t name = none → u)
    (h : ∀ s' res, s.iom.intoOutcome p i t name = some (res,s'.iom) → Q res s') :
    wp u (renameInto p (s.iom.slotEntry p.iIno.toNat i).deleted (toS32 (lab4DirEntrySize * i : ℕ)) t name) Q e s := by
  unfold renameInto
  rw [wp_ite]
  refine ⟨fun hdir => ?_,fun hdir => ?_⟩
  · dsimp only
    rw [wp_bind]
    have hout : ∀ r, s.iom.lookupSlot t.iIno name = some (.error r) → r = -enoent →
        s.iom.intoOutcome p i t name = match s.iom.insertScan t with
          | none => none
          | some (found,j) => some (lab4Success,s.iom.moveEntry p i t found j) := by
      intro r hl hr
      subst hr
      rw [Iom.intoOutcome, if_pos hdir, hl]
      exact if_neg (by decide)
    refine wp_lab4Lookup_slot hm ?_ ?_ ?_ ?_
    · intro hn s1 h1
      dsimp only
      rw [if_pos rfl, wp_pure]
      exact (hbad (hio.not_malloc (haddr _) hn)).2 s1 _ (by decide) h1
    · intro hl
      exact hu (by rw [Iom.intoOutcome, if_pos hdir, hl])
    · intro s1 res h1 _ hl
      dsimp only
      rcases lookupSlot_error hl with rfl | rfl
      · rw [if_pos rfl, wp_pure]
        exact h s1 _ (by rw [Iom.intoOutcome, if_pos hdir, hl, h1]; rfl)
      have ho := hout _ hl rfl
      rw [if_neg (by decide), if_neg (by decide), if_pos rfl, wp_bind]
      apply wp_malloc_cases
      intro c s2 h2 hc
      rw [h1] at h2
      cases c with
      | false =>
        rw [if_pos (by decide), wp_pure]
        exact (hbad (hc rfl)).2 s2 _ (by decide) h2
      | true =>
        have ha : t.blocknr = ((t.iBlocks 0).toNat : ℕ) := Inode.blocknr_eq ht
        rw [if_neg (by decide), wp_bind, wp_getIom, h2, wp_bind, ha]
        apply wp_pread_ok hio (Int.natCast_nonneg _) le_rfl
        intro s3 h3
        rw [h2] at h3 ⊢
        have hscan : slotLoop freeTest t.iSize.toInt
            (splice zeros 0 s.iom.clusterSize (s.iom.dev.bytes.shift (t.iBlocks 0).toNat))
            (s.iom.clusterSize / lab4DirEntrySize) 0 = s.iom.insertScan t :=
          slotLoop_congr (fun l hl => entryAt_read (by omega))
        dsimp only
        rw [if_neg hm.clusterSize_ne_error, wp_bind, wp_lift, Int.toNat_natCast, hscan]
        refine ⟨fun hs => hu (by rw [ho, hs]),?_⟩
        rintro ⟨found,j⟩ hs
        rw [wp_bind]
        apply wp_insertEntry hio
        intro s4 h4
        rw [h3] at h4
        rw [wp_bind]
        apply wp_writeBackEntry hio hi hp
        intro s5 h5
        rw [wp_pure]
        refine h s5 _ ?_
        rw [ho, hs, h5, h4]
        rfl
    · intro s1 j h1 _ hlo hhi hl _
      have ho : s.iom.intoOutcome p i t name = some (-eexist,s1.iom) := by
        rw [Iom.intoOutcome, if_pos hdir, hl, h1]
      rw [lookupResult_keep _ _ _ (by decide)]
      dsimp only
      rw [if_neg (by decide), wp_ite, wp_pure]
      refine ⟨fun _ => h s1 _ ho,fun _ => ?_⟩
      rw [if_neg (by decide), wp_pure]
      exact h s1 _ ho
  · rw [wp_pure]
    exact h s _ (if_neg hdir)

theorem wp_cstr {b : NameBuf} {x : List UInt8} {R : List UInt8 → Sys → Prop} (hb : b.bytes = x)
    (hu : ¬x.length < fnameSize → u) (h : x.length < fnameSize → R x s) :
    wp u (lift b.cstr) R e s := by
  rw [wp_lift]
  refine ⟨fun hn => hu (fun hlt => ?_),fun y hy => ?_⟩
  · rw [NameBuf.cstr, if_pos (hb ▸ hlt)] at hn
    cases hn
  · obtain ⟨rfl,hlt⟩ := NameBuf.cstr_eq_some hy
    rw [hb] at hlt ⊢
    exact h hlt

/-- The offset the slot of a looked-up entry is written back to. -/
theorem entryOffset_slot {i : ℕ} (hi : lab4DirEntrySize * i < 2^31) (hp : (p.iBlocks 0).toNat < 2^31) :
    entryOffset p (toS32 (lab4DirEntrySize * i : ℕ)) = (slotAddr p i : ℕ) := by
  unfold entryOffset slotAddr
  rw [toS32_natCast hi, ← Nat.cast_add, toU32_natCast (by omega)]

/-- The rename behind the lookup of the source. -/
theorem wp_renameTarget {fromPath toPath : List UInt8} {f : NameBuf} {i : ℕ} (hio : e.IoOk) (hm : s.iom.Mounted)
    (haddr : s.iom.AddrOk) (hi : lab4DirEntrySize * i < 2^31) (hp : (p.iBlocks 0).toNat < 2^31)
    (hf : f.bytes = lastName fromPath)
    (hbad' : ¬e.MallocOk → u ∧ ∀ s' res, res ≠ lab4Success → s'.iom = s.iom → Q res s')
    (hfrom : ¬PathOk fromPath → u) (hto : ¬PathOk toPath → s.iom.readInode toPath = some (.error (-enoent)) → u)
    (hu : s.iom.targetOutcome p i fromPath toPath = none → u)
    (h : ∀ s' res, (s.iom.readInode toPath = some (.error (-enoent)) → PathOk toPath) →
      s.iom.targetOutcome p i fromPath toPath = some (res,s'.iom) → Q res s') :
    wp u (renameTarget p (s.iom.slotEntry p.iIno.toNat i).deleted (toS32 (lab4DirEntrySize * i : ℕ)) f toPath) Q e s := by
  -- the second half, for a target record that was read
  have hinto : ∀ s1 t name, s1.iom = s.iom → (t.iBlocks 0).toNat < 2^31 →
      (s.iom.readInode toPath = some (.error (-enoent)) → PathOk toPath) →
      s.iom.targetOutcome p i fromPath toPath = s.iom.intoOutcome p i t name →
      wp u (renameInto p (s.iom.slotEntry p.iIno.toNat i).deleted (toS32 (lab4DirEntrySize * i : ℕ)) t name) Q e s1 := by
    intro s1 t name h1 ht hok ho
    replace h := fun s' res => h s' res hok
    rw [ho, ← h1] at hu h
    rw [← h1] at hbad' hm haddr ⊢
    exact wp_renameInto hio hm haddr hi hp ht hbad' hu h
  unfold renameTarget
  rw [wp_bind]
  refine wp_lab4ReadInode hm ?_ ?_ ?_ ?_
  · intro hn s1 res h1 hres
    dsimp only
    replace hn := hio.not_malloc (haddr.walk _ _) hn
    rcases hres with rfl | rfl
    · rw [if_pos rfl, wp_pure]
      exact (hbad' hn).2 s1 _ (by decide) h1
    · rw [if_neg (by decide), if_neg (by decide), wp_undefined]
      exact (hbad' hn).1
  · exact fun hr => hu (by rw [Iom.targetOutcome, hr])
  · intro s1 res h1 hr
    dsimp only
    rcases readInode_error hr with rfl | rfl
    · rw [if_pos rfl, wp_pure]
      refine h s1 _ (fun hn => ?_) (by rw [Iom.targetOutcome, hr, h1]; rfl)
      cases hr.symm.trans hn
    rw [if_neg (by decide), if_pos rfl, wp_bind]
    refine wp_getNameFromPath (fun hn => ?_) (fun s2 f' d h2 hslash hf' hd => ?_)
    · rcases hn with hn | hn
      · exact (hbad' hn).1
      · exact hto hn hr
    rw [h1] at h2
    replace hto : ¬PathOk toPath → u := fun hn => hto hn hr
    dsimp only
    rw [wp_bind]
    refine wp_cstr hd (fun hn => hto (fun hp => hn hp.dir)) (fun hdir => ?_)
    have ho : ∀ r, s.iom.readInode (dirName toPath) = r → (∀ t, r ≠ some (.ok (some t))) →
        s.iom.targetOutcome p i fromPath toPath = none := by
      intro r hr' hne
      rw [Iom.targetOutcome, hr]
      dsimp only
      rw [if_neg (by decide), hr']
      split
      · next t => exact absurd rfl (hne t)
      · rfl
    have hm2 : s2.iom.Mounted := h2 ▸ hm
    rw [wp_bind]
    refine wp_lab4ReadInode hm2 ?_ ?_ ?_ ?_
    · intro hn s3 res h3 _
      rw [wp_undefined]
      exact (hbad' (hio.not_malloc ((h2 ▸ haddr : s2.iom.AddrOk).walk _ _) hn)).1
    · intro hr'
      rw [h2] at hr'
      exact hu (ho none hr' nofun)
    · intro s3 res h3 hr'
      rw [h2] at hr'
      rw [wp_undefined]
      exact hu (ho _ hr' nofun)
    · intro s3 v h3 _ hr'
      rw [h2] at h3 hr'
      cases v with
      | none =>
        rw [wp_undefined]
        exact hu (ho _ hr' nofun)
      | some t =>
        obtain ⟨k,hk,hkn,rfl,_⟩ := readInode_record hr'
        have hout : s.iom.targetOutcome p i fromPath toPath =
            if p.iIno = (s.iom.inode k).iIno then some (lab4Success,s.iom.renameEntry p i (lastName toPath))
            else s.iom.intoOutcome p i (s.iom.inode k) (lastName toPath) := by
          rw [Iom.targetOutcome, hr]
          dsimp only
          rw [if_neg (by decide), hr']
        dsimp only
        rw [wp_bind]
        refine wp_cstr hf' (fun hn => hto (fun hp => hn hp.last)) (fun hlast => ?_)
        have hok : PathOk toPath := ⟨hslash,hlast,hdir⟩
        rw [wp_ite]
        refine ⟨fun hino => ?_,fun hino => hinto s3 _ _ h3 (haddr k hk hkn) (fun _ => hok) (hout.trans (if_neg hino))⟩
        rw [wp_bind, entryOffset_slot hi hp]
        apply wp_pwrite_ok hio (Int.natCast_nonneg _)
        intro s4 h4
        rw [wp_pure]
        refine h s4 _ (fun _ => hok) (hout.trans ?_)
        rw [if_pos hino, h4, h3, Int.toNat_natCast]
        rfl
  · intro s1 v h1 _ hr
    dsimp only
    rw [if_neg (by decide), if_neg (by decide)]
    cases v with
    | none =>
      rw [wp_undefined]
      exact hu (by rw [Iom.targetOutcome, hr])
    | some t =>
      obtain ⟨k,hk,hkn,rfl,_⟩ := readInode_record hr
      dsimp only
      rw [wp_bind]
      refine wp_cstr hf (fun hn => hfrom (fun hp => hn hp.last)) (fun _ => ?_)
      refine hinto s1 _ _ h1 (haddr k hk hkn) (fun hn => ?_) (by rw [Iom.targetOutcome, hr])
      cases hr.symm.trans hn

/-- `do_rename` does what `renameOutcome` says. -/
theorem wp_doRename {fromPath toPath : List UInt8} (hio : e.IoOk) (hm : s.iom.Mounted) (haddr : s.iom.AddrOk)
    (hbad' : ¬e.MallocOk → u ∧ ∀ s' res, res ≠ lab4Success → s'.iom = s.iom → Q res s')
    (hfrom : ¬PathOk fromPath → u)
    (hto : ¬PathOk toPath → s.iom.readInode toPath = some (.error (-enoent)) →
      (∃ p i, s.iom.sourceSlot fromPath = some (.ok (p,i))) → u)
    (hu : s.iom.renameOutcome fromPath toPath = none → u)
    (herr : ∀ s' res, s'.iom = s.iom → s.iom.sourceSlot fromPath = some (.error res) → Q res s')
    (h : ∀ s' p i res, PathOk fromPath → s.iom.sourceSlot fromPath = some (.ok (p,i)) →
      (s.iom.readInode toPath = some (.error (-enoent)) → PathOk toPath) →
      s.iom.targetOutcome p i fromPath toPath = some (res,s'.iom) → Q res s') :
    wp u (doRename fromPath toPath) Q e s := by
  unfold doRename
  rw [wp_bind]
  refine wp_getNameFromPath (fun hn => ?_) (fun s1 f d h1 hsl hf hd => ?_)
  · rcases hn with hn | hn
    · exact (hbad' hn).1
    · exact hfrom hn
  dsimp only
  rw [wp_bind]
  refine wp_cstr hd (fun hn => hfrom (fun hp => hn hp.dir)) (fun hdir => ?_)
  have hm1 : s1.iom.Mounted := h1 ▸ hm
  rw [wp_bind]
  refine wp_lab4ReadInode hm1 ?_ ?_ ?_ ?_
  · intro hn s2 res h2 hres
    rw [h1] at h2
    dsimp only
    replace hn := hio.not_malloc ((h1 ▸ haddr : s1.iom.AddrOk).walk _ _) hn
    rcases hres with rfl | rfl
    · rw [if_pos rfl, wp_pure]
      exact (hbad' hn).2 s2 _ (by decide) h2
    · rw [if_neg (by decide), if_neg (by decide), wp_undefined]
      exact (hbad' hn).1
  · intro hr
    exact hu (by rw [Iom.renameOutcome, ← h1, hr])
  · intro s2 res h2 hr
    rw [h1] at h2 hr
    have ho : s.iom.sourceSlot fromPath = some (.error res) := by rw [Iom.sourceSlot, hr]
    dsimp only
    rcases readInode_error hr with rfl | rfl
    · rw [if_pos rfl, wp_pure]
      exact herr s2 _ h2 ho
    · rw [if_neg (by decide), if_pos rfl, wp_pure]
      exact herr s2 _ h2 ho
  · intro s2 v h2 _ hr
    rw [h1] at h2 hr
    dsimp only
    rw [if_neg (by decide), if_neg (by decide)]
    cases v with
    | none =>
      rw [wp_undefined]
      exact hu (by rw [Iom.renameOutcome, hr])
    | some p =>
      obtain ⟨k,hk,hkn,hp,_⟩ := readInode_record hr
      have hpaddr : (p.iBlocks 0).toNat < 2^31 := hp ▸ haddr k hk hkn
      have hsource : s.iom.sourceSlot fromPath = match s.iom.lookupSlot p.iIno (lastName fromPath) with
          | none => none
          | some (.error res) => some (.error res)
          | some (.ok i) => some (.ok (p,i)) := by rw [Iom.sourceSlot, hr]
      dsimp only
      rw [wp_bind]
      refine wp_cstr hf (fun hn => hfrom (fun hp => hn hp.last)) (fun hlast => ?_)
      rw [wp_bind]
      refine wp_lab4Lookup_slot (h2 ▸ hm) ?_ ?_ ?_ ?_
      · intro hn s3 h3
        rw [h2] at h3
        dsimp only
        rw [if_pos rfl, wp_pure]
        exact (hbad' (hio.not_malloc ((h2 ▸ haddr : s2.iom.AddrOk) _) hn)).2 s3 _ (by decide) h3
      · intro hl
        rw [h2] at hl
        rw [hl] at hsource
        exact hu (renameOutcome_source hsource)
      · intro s3 res h3 _ hl
        rw [h2] at h3 hl
        have hres := hsource
        rw [hl] at hres
        dsimp only
        rcases lookupSlot_error hl with rfl | rfl
        · rw [if_pos rfl, wp_pure]
          exact herr s3 _ h3 hres
        · rw [if_neg (by decide), if_pos rfl, wp_pure]
          exact herr s3 _ h3 hres
      · intro s3 i h3 _ _ _ hl hscan
        rw [h2] at h3 hl hscan
        have hi := scan_lt hm hscan
        rw [hl] at hsource
        replace hto : ¬PathOk toPath → s.iom.readInode toPath = some (.error (-enoent)) → u :=
          fun hn he => hto hn he ⟨p,i,hsource⟩
        replace h := fun s' res => h s' p i res ⟨hsl,hlast,hdir⟩ hsource
        rw [show s.iom.renameOutcome fromPath toPath = s.iom.targetOutcome p i fromPath toPath from
          renameOutcome_source hsource] at hu
        rw [h2, lookupResult_delete]
        dsimp only
        rw [if_neg (by decide), if_neg (by decide)]
        rw [← h3] at hm haddr hbad' hto hu h ⊢
        exact wp_renameTarget hio hm haddr hi hpaddr hf hbad' hfrom hto hu h

end SimpleFS
