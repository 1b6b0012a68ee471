import SimpleFS.FullDirectory

/-! # What a rename does to the slots of its directories

A rename into another directory writes the entry into the first slot that is not in use and then marks the
old slot, whether or not there was such a slot. So with a full target the entry is gone. A target whose
parent is missing ends in a null pointer.
-/
namespace SimpleFS
open Bytes Machine Prog

/-- A directory with a record and a block of its own, whose first two slots are used for itself and its
parent. The other slots hold anything. -/
structure Iom.OwnDir (m : Iom) (p : Inode) (n : ℕ) : Prop where
  record : p = m.inode p.iIno.toNat
  slots : m.DirSlots p.iIno.toNat n
  dots : ∀ i < 2, m.SlotUsed p.iIno.toNat i ∧ (cstr (m.slotEntry p.iIno.toNat i).dFilename = dotName ∨
    cstr (m.slotEntry p.iIno.toNat i).dFilename = dotdotName)

/-- The number of slots of a directory. -/
def Iom.slotNum (m : Iom) (p : Inode) : ℕ := (m.inode p.iIno.toNat).iSize.toInt.toNat / lab4DirEntrySize

/-- The directory that the entry goes to, with the name that is looked for there: what the target path leads
to, or its parent if it leads nowhere. -/
def Iom.destination (m : Iom) (fromPath toPath : List UInt8) : Option (Inode × List UInt8) :=
  match m.readInode toPath with
  | some (.ok (some t)) => some (t,lastName fromPath)
  | some (.error res) =>
    if res = lab4Error then none
    else match m.readInode (dirName toPath) with
      | some (.ok (some t)) => some (t,lastName toPath)
      | _ => none
  | _ => none

/-- Slot `j` of one of the two directories, by the number of the directory. -/
def Iom.SlotOf (m : Iom) (p t : Inode) (A j : ℕ) : Prop :=
  A = p.iIno.toNat ∧ j < m.slotNum p ∨ A = t.iIno.toNat ∧ j < m.slotNum t

/-- A used entry behind the first two slots that leads to the inode. -/
def Iom.NamedAt (m : Iom) (ino : UInt32) (A j : ℕ) : Prop := 2 ≤ j ∧ m.SlotUsed A j ∧ (m.slotEntry A j).dIno = ino

/-- The directories of a rename: the source, and the destination if it is a directory. The entry in slot `i`
of the source is the only one for its inode. -/
structure Iom.RenameDirs (m : Iom) (p : Inode) (i : ℕ) (t : Inode) : Prop where
  source : m.OwnDir p (m.slotNum p)
  dest : t.iType = lab4TypeDirectory → m.OwnDir t (m.slotNum t)
  apart : t.iIno ≠ p.iIno → m.dataAddr t.iIno.toNat ≠ m.dataAddr p.iIno.toNat
  single : ∀ A j, m.SlotOf p t A j → m.NamedAt (m.slotEntry p.iIno.toNat i).dIno A j → A = p.iIno.toNat ∧ j = i

/-- One entry leads to the inode, and every other one is still there. -/
structure Iom.EntryKept (m m' : Iom) (p : Inode) (i : ℕ) (t : Inode) : Prop where
  named : ∃ A j, m.SlotOf p t A j ∧ m'.NamedAt (m.slotEntry p.iIno.toNat i).dIno A j ∧
    ∀ A' j', m.SlotOf p t A' j' → m'.NamedAt (m.slotEntry p.iIno.toNat i).dIno A' j' → A' = A ∧ j' = j
  others : ∀ A j, m.SlotOf p t A j → m.SlotUsed A j → ¬(A = p.iIno.toNat ∧ j = i) → m'.slotEntry A j = m.slotEntry A j

/-- A rename that neither loses nor duplicates the object, and reports what stands in its way. -/
structure RenameKeeps (s : Sys) (fromPath toPath : List UInt8) : Prop where
  success : ∀ {e : Env} {s' : Sys}, e.IoOk → doRename fromPath toPath e s = some (lab4Success,s') →
    ∃ p i t name, s.iom.sourceSlot fromPath = some (.ok (p,i)) ∧ s.iom.destination fromPath toPath = some (t,name) ∧
      s.iom.EntryKept s'.iom p i t
  error : ∀ {e : Env} {r : ℤ} {s' : Sys}, e.IoOk → doRename fromPath toPath e s = some (r,s') → r ≠ lab4Success →
    s'.iom.dev = s.iom.dev
  parent : PathOk fromPath → PathOk toPath → (∀ t, s.iom.readInode (dirName toPath) ≠ some (.ok (some t))) →
    ∀ {e : Env}, e.Nominal → ∃ s', doRename fromPath toPath e s = some (-enoent,s')

/-- The parent of the target is there, unless the source is not, and a destination that is another directory
without the name has an unused slot. -/
structure Iom.RenameFits (m : Iom) (fromPath toPath : List UInt8) : Prop where
  parent : PathOk fromPath → PathOk toPath →
    (∃ t, m.readInode (dirName toPath) = some (.ok (some t))) ∨ m.sourceSlot fromPath = some (.error (-enoent))
  slot : ∀ p i t name, PathOk fromPath → (m.readInode toPath = some (.error (-enoent)) → PathOk toPath) →
    m.sourceSlot fromPath = some (.ok (p,i)) → m.destination fromPath toPath = some (t,name) → t.iIno ≠ p.iIno →
    t.iType = lab4TypeDirectory → m.lookupSlot t.iIno name = some (.error (-enoent)) →
    ∃ j < m.slotNum t, ¬m.SlotUsed t.iIno.toNat j

variable {e : Env} {s : Sys} {m m' : Iom} {p t : Inode} {A B i j l n n' : ℕ} {fromPath toPath name : List UInt8} {d : DirEntry}
  {found : Bool} {res : ℤ}

/-! ## One entry written -/

theorem writeEntry_dataAddr {a : ℕ} : (m.writeEntry a d).dataAddr A = m.dataAddr A := (rfl)

theorem slot_writeEntry_self {a : ℕ} (ha : a = m.dataAddr A + lab4DirEntrySize * i) : (m.writeEntry a d).slotEntry A i = d := by
  rw [slotEntry_eq, writeEntry_dataAddr, ← ha]
  exact dirEntryCodec.get_put_self

theorem slot_writeEntry_of_disjoint {a : ℕ}
    (h : m.dataAddr A + lab4DirEntrySize * j + lab4DirEntrySize ≤ a ∨ a + lab4DirEntrySize ≤ m.dataAddr A + lab4DirEntrySize * j) :
    (m.writeEntry a d).slotEntry A j = m.slotEntry A j := by
  rw [slotEntry_eq, slotEntry_eq, writeEntry_dataAddr]
  exact dirEntryCodec.get_splice_of_disjoint h

theorem slot_writeEntry_of_ne {a : ℕ} (ha : a = m.dataAddr A + lab4DirEntrySize * i) (hij : j ≠ i) :
    (m.writeEntry a d).slotEntry A j = m.slotEntry A j := by
  refine slot_writeEntry_of_disjoint ?_
  unfold lab4DirEntrySize at *
  omega

/-- Slots of directories with different blocks do not overlap. -/
theorem Iom.DirSlots.apart (hA : m.DirSlots A n) (hB : m.DirSlots B n') (hne : m.dataAddr A ≠ m.dataAddr B) (hj : j < n)
    (hi : i < n') : m.dataAddr A + lab4DirEntrySize * j + lab4DirEntrySize ≤ m.dataAddr B + lab4DirEntrySize * i ∨
      m.dataAddr B + lab4DirEntrySize * i + lab4DirEntrySize ≤ m.dataAddr A + lab4DirEntrySize * j := by
  have hja := hA.slot_lt hj
  have hib := hB.slot_lt hi
  obtain ⟨b,hb,_,_⟩ := hA.owner
  obtain ⟨c,hc,_,_⟩ := hB.owner
  rw [hb, hc]
  rw [hb, hc] at hne
  unfold Iom.blockAddr at hne ⊢
  rcases Nat.lt_or_gt_of_ne (show b ≠ c by rintro rfl; exact hne rfl) with hlt | hlt
  · have := blockAddr_le_of_lt m.clusterSize hlt
    omega
  · have := blockAddr_le_of_lt m.clusterSize hlt
    omega

/-! ## The moved entry -/

theorem lookupSlot_ok {D : UInt32} {x : List UInt8} (h : m.lookupSlot D x = some (.ok i)) :
    m.scan (lookupTest x) D.toNat = some (true,i) := by
  unfold Iom.lookupSlot at h
  split at h
  · cases h
  · split at h
    · cases h
    · split at h
      · cases h
      · cases h
      · next hs =>
        cases h
        exact hs

theorem sourceSlot_ok (h : m.sourceSlot fromPath = some (.ok (p,i))) :
    m.readInode (dirName fromPath) = some (.ok (some p)) ∧ m.lookupSlot p.iIno (lastName fromPath) = some (.ok i) := by
  unfold Iom.sourceSlot at h
  split at h
  · cases h
  · cases h
  · cases h
  · next q hr =>
    split at h
    · cases h
    · cases h
    · next hl =>
      cases h
      exact ⟨hr,hl⟩

/-- The slot that a lookup for another name than those of the first two finds. -/
theorem Iom.OwnDir.found_slot {x : List UInt8} (h : m.OwnDir p n) (hdot : x ≠ dotName) (hdotdot : x ≠ dotdotName)
    (hs : m.lookupSlot p.iIno x = some (.ok i)) : 2 ≤ i ∧ i < n ∧ m.SlotUsed p.iIno.toNat i := by
  obtain ⟨hlt,ht⟩ := (slotLoop_scan (lookupSlot_ok hs)).1.hit rfl
  obtain ⟨hu,hn⟩ := lookupTest_true ht
  refine ⟨?_,h.slots.below_size.mp hlt,hu⟩
  by_contra hi
  rcases (h.dots i (Nat.not_le.mp hi)).2 with hd | hd
  · exact hdot (hn.symm.trans hd)
  · exact hdotdot (hn.symm.trans hd)

theorem Iom.DirSlots.insertScan_cases (h : m.DirSlots A n) (hs : m.insertScan (m.inode A) = some (found,j)) :
    (found = true → j < n ∧ ¬m.SlotUsed A j) ∧ (found = false → ∀ l < n, m.SlotUsed A l) := by
  have hsc := (slotLoop_scan hs).1
  constructor
  · intro hf
    obtain ⟨hlt,ht⟩ := hsc.hit hf
    exact ⟨h.below_size.mp hlt,of_decide_eq_true (Option.some.inj ht)⟩
  · intro hf l hl
    have hj : ¬j < n := fun hj => absurd (h.below_size.mpr hj) (not_lt.mpr (hsc.stop hf))
    have hmiss := (hsc.miss l (Nat.zero_le l) (by omega)).2
    exact not_not.mp (of_decide_eq_false (Option.some.inj hmiss))

theorem Iom.DirSlots.insertScan_isSome (h : m.DirSlots A n) : (m.insertScan (m.inode A)).isSome := by
  have hfits := h.fits
  refine slotLoop_isSome (fun _ => rfl) ?_
  rw [h.size]
  unfold lab4DirEntrySize at *
  omega

theorem Iom.OwnDir.slotAddr_eq (h : m.OwnDir p n) : slotAddr p i = m.dataAddr p.iIno.toNat + lab4DirEntrySize * i :=
  congrArg (fun v : Inode => (v.iBlocks 0).toNat + lab4DirEntrySize * i) h.record

theorem Iom.slotUsed_deleted (h : m'.slotEntry A i = d.deleted) : ¬m'.SlotUsed A i := by
  unfold Iom.SlotUsed
  rw [h]
  exact show lab4DirDeleted ≠ lab4DirUsed by decide

theorem moveEntry_true : m.moveEntry p i t true j =
    (m.writeEntry (slotAddr t j) { m.slotEntry p.iIno.toNat i with dFlag := lab4DirUsed }).writeEntry (slotAddr p i)
      (m.slotEntry p.iIno.toNat i).deleted := (rfl)

theorem moveEntry_false : m.moveEntry p i t false j = m.writeEntry (slotAddr p i) (m.slotEntry p.iIno.toNat i).deleted := (rfl)

section Moved
variable (h : m.RenameDirs p i t) (hdir : t.iType = lab4TypeDirectory) (hne : t.iIno ≠ p.iIno) (hi : i < m.slotNum p)

include h in
/-- The old slot is marked. -/
theorem moveEntry_source : (m.moveEntry p i t found j).slotEntry p.iIno.toNat i = (m.slotEntry p.iIno.toNat i).deleted := by
  unfold Iom.moveEntry
  refine slot_writeEntry_self ?_
  rw [h.source.slotAddr_eq]
  cases found <;> rfl

include h hdir hne hi

/-- The new slot has the entry. -/
theorem moveEntry_dest (hj : j < m.slotNum t) :
    (m.moveEntry p i t true j).slotEntry t.iIno.toNat j = { m.slotEntry p.iIno.toNat i with dFlag := lab4DirUsed } := by
  have ht := h.dest hdir
  have hd := ht.slots.apart h.source.slots (h.apart hne) hj hi
  rw [← h.source.slotAddr_eq] at hd
  rw [moveEntry_true]
  refine (slot_writeEntry_of_disjoint ?_).trans (slot_writeEntry_self ht.slotAddr_eq)
  rw [writeEntry_dataAddr]
  exact hd

/-- Every other slot is as it was. -/
theorem moveEntry_rest (hj : found = true → j < m.slotNum t) (hs : m.SlotOf p t A l) (hsrc : ¬(A = p.iIno.toNat ∧ l = i))
    (hdst : found = true → ¬(A = t.iIno.toNat ∧ l = j)) : (m.moveEntry p i t found j).slotEntry A l = m.slotEntry A l := by
  have ht := h.dest hdir
  have hp := h.source
  have hdisj : m.dataAddr A + lab4DirEntrySize * l + lab4DirEntrySize ≤ slotAddr p i ∨
      slotAddr p i + lab4DirEntrySize ≤ m.dataAddr A + lab4DirEntrySize * l := by
    rw [hp.slotAddr_eq]
    rcases hs with ⟨rfl,hl⟩ | ⟨rfl,hl⟩
    · have hli : l ≠ i := fun hc => hsrc ⟨rfl,hc⟩
      unfold lab4DirEntrySize
      omega
    · exact ht.slots.apart hp.slots (h.apart hne) hl hi
  cases found with
  | false =>
    rw [moveEntry_false]
    exact slot_writeEntry_of_disjoint hdisj
  | true =>
    rw [moveEntry_true]
    refine (slot_writeEntry_of_disjoint ?_).trans (slot_writeEntry_of_disjoint ?_)
    · rw [writeEntry_dataAddr]
      exact hdisj
    rw [ht.slotAddr_eq]
    rcases hs with ⟨rfl,hl⟩ | ⟨rfl,hl⟩
    · exact hp.slots.apart ht.slots (Ne.symm (h.apart hne)) hl (hj rfl)
    · have hlj : l ≠ j := fun hc => hdst rfl ⟨rfl,hc⟩
      unfold lab4DirEntrySize
      omega

/-- An entry that found an unused slot is kept. -/
theorem entryKept_moveEntry (hj : j < m.slotNum t) (hu : ¬m.SlotUsed t.iIno.toNat j) :
    m.EntryKept (m.moveEntry p i t true j) p i t := by
  have hdest := moveEntry_dest h hdir hne hi hj
  have hrest : ∀ {A l : ℕ}, m.SlotOf p t A l → ¬(A = p.iIno.toNat ∧ l = i) → ¬(A = t.iIno.toNat ∧ l = j) →
      (m.moveEntry p i t true j).slotEntry A l = m.slotEntry A l := fun hs h1 h2 =>
    moveEntry_rest h hdir hne hi (fun _ => hj) hs h1 (fun _ => h2)
  refine ⟨⟨t.iIno.toNat,j,.inr ⟨rfl,hj⟩,⟨?_,?_,?_⟩,fun A l hs hn => ?_⟩,fun A l hs hul hsrc => ?_⟩
  · by_contra hlt
    exact hu ((h.dest hdir).dots j (Nat.not_le.mp hlt)).1
  · rw [Iom.SlotUsed, hdest]
  · rw [hdest]
  · obtain ⟨h2,hul,hino⟩ := hn
    by_cases hsrc : A = p.iIno.toNat ∧ l = i
    · obtain ⟨rfl,rfl⟩ := hsrc
      exact absurd hul (Iom.slotUsed_deleted (moveEntry_source h))
    by_contra hdst
    rw [Iom.SlotUsed, hrest hs hsrc hdst] at hul
    rw [hrest hs hsrc hdst] at hino
    exact hsrc (h.single A l hs ⟨h2,hul,hino⟩)
  · refine hrest hs hsrc ?_
    rintro ⟨rfl,rfl⟩
    exact hu hul

/-- An entry that found none is lost. -/
theorem not_entryKept_moveEntry : ¬m.EntryKept (m.moveEntry p i t false j) p i t := by
  rintro ⟨⟨A,l,hs,⟨h2,hul,hino⟩,_⟩,_⟩
  by_cases hsrc : A = p.iIno.toNat ∧ l = i
  · obtain ⟨rfl,rfl⟩ := hsrc
    exact Iom.slotUsed_deleted (moveEntry_source h) hul
  · have hrest : (m.moveEntry p i t false j).slotEntry A l = m.slotEntry A l :=
      moveEntry_rest h hdir hne hi nofun hs hsrc nofun
    rw [Iom.SlotUsed, hrest] at hul
    rw [hrest] at hino
    exact hsrc (h.single A l hs ⟨h2,hul,hino⟩)

end Moved

/-- An entry that got a new name in its directory is kept. -/
theorem entryKept_renameEntry (h : m.RenameDirs p i t) (hino : t.iIno = p.iIno) (h2 : 2 ≤ i) (hi : i < m.slotNum p) :
    m.EntryKept (m.renameEntry p i name) p i t := by
  have ha : slotAddr p i = m.dataAddr p.iIno.toNat + lab4DirEntrySize * i := h.source.slotAddr_eq
  have hself : (m.renameEntry p i name).slotEntry p.iIno.toNat i = _ := slot_writeEntry_self ha
  have hA : ∀ {A l : ℕ}, m.SlotOf p t A l → A = p.iIno.toNat := fun hs => by
    rcases hs with ⟨rfl,_⟩ | ⟨rfl,_⟩
    · rfl
    · rw [hino]
  have hrest : ∀ {A l : ℕ}, m.SlotOf p t A l → ¬(A = p.iIno.toNat ∧ l = i) →
      (m.renameEntry p i name).slotEntry A l = m.slotEntry A l := fun {A l} hs hn => by
    obtain rfl := hA hs
    exact slot_writeEntry_of_ne ha (fun hc => hn ⟨rfl,hc⟩)
  refine ⟨⟨p.iIno.toNat,i,.inl ⟨rfl,hi⟩,⟨h2,?_,?_⟩,fun A l hs hn => ?_⟩,fun A l hs _ hn => hrest hs hn⟩
  · rw [Iom.SlotUsed, hself]
  · rw [hself]
  · by_contra hsrc
    have hul := hn.2.1
    have hino' := hn.2.2
    rw [Iom.SlotUsed, hrest hs hsrc] at hul
    rw [hrest hs hsrc] at hino'
    exact hsrc (h.single A l hs ⟨hn.1,hul,hino'⟩)

/-! ## The outcomes -/

theorem intoOutcome_cases (h : m.intoOutcome p i t name = some (res,m')) :
    (m' = m ∧ (res = lab4Error ∨ res = -eexist)) ∨ t.iType = lab4TypeDirectory ∧ res = lab4Success ∧
      m.lookupSlot t.iIno name = some (.error (-enoent)) ∧
      ∃ found j, m.insertScan t = some (found,j) ∧ m' = m.moveEntry p i t found j := by
  unfold Iom.intoOutcome at h
  split at h
  · next hdir =>
    split at h
    · cases h
    · cases h
      exact .inl ⟨rfl,.inr rfl⟩
    · next hl =>
      rcases lookupSlot_error hl with rfl | rfl
      · rw [if_pos rfl] at h
        cases h
        exact .inl ⟨rfl,.inl rfl⟩
      · rw [if_neg (by decide)] at h
        split at h
        · cases h
        · next found j hs =>
          cases h
          exact .inr ⟨hdir,rfl,hl,found,j,hs,rfl⟩
  · cases h
    exact .inl ⟨rfl,.inr rfl⟩

/-- Behind the lookup of the source the call refuses, renames in place, or moves. -/
theorem targetOutcome_cases (hsrc : m.sourceSlot fromPath = some (.ok (p,i)))
    (h : m.targetOutcome p i fromPath toPath = some (res,m')) :
    (m' = m ∧ (res = lab4Error ∨ res = -eexist)) ∨ res = lab4Success ∧ ∃ t name, m.destination fromPath toPath = some (t,name) ∧
      (t.iIno = p.iIno ∧ m' = m.renameEntry p i name ∨
        t.iIno ≠ p.iIno ∧ t.iType = lab4TypeDirectory ∧ m.lookupSlot t.iIno name = some (.error (-enoent)) ∧
          ∃ found j, m.insertScan t = some (found,j) ∧ m' = m.moveEntry p i t found j) := by
  unfold Iom.targetOutcome at h
  split at h
  · cases h
  · cases h
  · next t hr =>
    have hdest : m.destination fromPath toPath = some (t,lastName fromPath) := by rw [Iom.destination, hr]
    rcases intoOutcome_cases h with hc | ⟨hdir,hres,hl,hm⟩
    · exact .inl hc
    · refine .inr ⟨hres,t,_,hdest,.inr ⟨fun hino => ?_,hdir,hl,hm⟩⟩
      rw [hino, (sourceSlot_ok hsrc).2] at hl
      cases hl
  · next r hr =>
    rcases readInode_error hr with rfl | rfl
    · rw [if_pos rfl] at h
      cases h
      exact .inl ⟨rfl,.inl rfl⟩
    rw [if_neg (by decide)] at h
    split at h
    · next t ht =>
      have hdest : m.destination fromPath toPath = some (t,lastName toPath) := by
        rw [Iom.destination, hr]
        dsimp only
        rw [if_neg (by decide), ht]
      split at h
      · next hino =>
        cases h
        exact .inr ⟨rfl,t,_,hdest,.inl ⟨hino.symm,rfl⟩⟩
      · next hino =>
        rcases intoOutcome_cases h with hc | ⟨hdir,hres,hl,hm⟩
        · exact .inl hc
        · exact .inr ⟨hres,t,_,hdest,.inr ⟨Ne.symm hino,hdir,hl,hm⟩⟩
    · cases h

/-- Towards another directory the call goes on with the entry. -/
theorem targetOutcome_of_destination (hd : m.destination fromPath toPath = some (t,name)) (hne : t.iIno ≠ p.iIno) :
    m.targetOutcome p i fromPath toPath = m.intoOutcome p i t name := by
  unfold Iom.destination at hd
  split at hd
  · next hr =>
    cases hd
    rw [Iom.targetOutcome, hr]
  · next r hr =>
    split at hd
    · cases hd
    · next hres =>
      split at hd
      · next hparent =>
        cases hd
        have hne' : p.iIno ≠ t.iIno := Ne.symm hne
        rw [Iom.targetOutcome, hr]
        dsimp only
        rw [if_neg hres, hparent]
        exact if_neg hne'
      · cases hd
  · cases hd

theorem sourceSlot_error (h : m.sourceSlot fromPath = some (.error res)) : res = lab4Error ∨ res = -enoent := by
  unfold Iom.sourceSlot at h
  split at h
  · cases h
  · next hr =>
    cases h
    exact readInode_error hr
  · cases h
  · split at h
    · cases h
    · next hl =>
      cases h
      exact lookupSlot_error hl
    · cases h

/-- The error of the source is the result. -/
theorem renameOutcome_error (h : m.sourceSlot fromPath = some (.error res)) :
    m.renameOutcome fromPath toPath = some (res,m) := renameOutcome_source h

section Rename
variable (hm : s.iom.Mounted) (haddr : s.iom.AddrOk) (hdot : lastName fromPath ≠ dotName) (hdotdot : lastName fromPath ≠ dotdotName)
  (hdirs : ∀ p i t name, s.iom.sourceSlot fromPath = some (.ok (p,i)) → s.iom.destination fromPath toPath = some (t,name) →
    s.iom.RenameDirs p i t)
include hm haddr

/-- A run from a source that is not there. -/
theorem rename_error (he : e.Nominal) (hfrom : PathOk fromPath) (h : s.iom.sourceSlot fromPath = some (.error res)) :
    ∃ s', doRename fromPath toPath e s = some (res,s') := by
  have hwp : wp False (doRename fromPath toPath) (fun r _ => r = res) e s := by
    refine wp_doRename he.io hm haddr (fun hn => absurd he.malloc hn) (fun hn => hn hfrom) (fun _ _ hs => ?_) (fun hn => ?_)
      (fun _ r _ hs => ?_) (fun _ p i r _ hs _ _ => ?_)
    · obtain ⟨p,i,hs⟩ := hs
      cases h.symm.trans hs
    · cases (renameOutcome_error h).symm.trans hn
    · cases h.symm.trans hs
      rfl
    · cases h.symm.trans hs
  obtain ⟨r,s',hrun,rfl⟩ := wp_false.mp hwp
  exact ⟨s',hrun⟩

/-- A run into a full directory. -/
theorem rename_full (he : e.Nominal) (hfrom : PathOk fromPath)
    (hto : s.iom.readInode toPath = some (.error (-enoent)) → PathOk toPath)
    (hsrc : s.iom.sourceSlot fromPath = some (.ok (p,i))) (hd : s.iom.destination fromPath toPath = some (t,name))
    (hne : t.iIno ≠ p.iIno) (hdir : t.iType = lab4TypeDirectory) (hl : s.iom.lookupSlot t.iIno name = some (.error (-enoent)))
    (hs : s.iom.insertScan t = some (false,j)) :
    ∃ s', doRename fromPath toPath e s = some (lab4Success,s') ∧ s'.iom = s.iom.moveEntry p i t false j := by
  have hinto : s.iom.intoOutcome p i t name = some (lab4Success,s.iom.moveEntry p i t false j) := by
    rw [Iom.intoOutcome, if_pos hdir, hl]
    dsimp only
    rw [if_neg (by decide), hs]
  have ho := (targetOutcome_of_destination (i := i) hd hne).trans hinto
  have hwp : wp False (doRename fromPath toPath) (fun r s' => r = lab4Success ∧ s'.iom = s.iom.moveEntry p i t false j) e s := by
    refine wp_doRename he.io hm haddr (fun hn => absurd he.malloc hn) (fun hn => hn hfrom) (fun hn hr _ => hn (hto hr)) (fun hn => ?_)
      (fun _ r _ hs => ?_) (fun s' q l r _ hs _ hout => ?_)
    · cases ((renameOutcome_source hsrc).trans ho).symm.trans hn
    · cases hsrc.symm.trans hs
    · cases hsrc.symm.trans hs
      have heq := ho.symm.trans hout
      simp only [Option.some.injEq, Prod.mk.injEq] at heq
      exact ⟨heq.1.symm,heq.2.symm⟩
  obtain ⟨r,s',hrun,rfl,hiom⟩ := wp_false.mp hwp
  exact ⟨s',hrun,hiom⟩

include hdot hdotdot hdirs

/-- What a rename that fits its directories leaves. -/
theorem rename_fits (hfit : s.iom.RenameFits fromPath toPath) (hio : e.IoOk) :
    wp True (doRename fromPath toPath) (fun r s' => (r = lab4Success ∧ ∃ p i t name,
      s.iom.sourceSlot fromPath = some (.ok (p,i)) ∧ s.iom.destination fromPath toPath = some (t,name) ∧
        s.iom.EntryKept s'.iom p i t) ∨ r ≠ lab4Success ∧ s'.iom.dev = s.iom.dev) e s := by
  refine wp_doRename hio hm haddr (fun _ => ⟨trivial,fun s' res hres h => .inr ⟨hres,by rw [h]⟩⟩) (fun _ => trivial)
    (fun _ _ _ => trivial) (fun _ => trivial) (fun s' res h hs => ?_) (fun s' p i res hfrom hs hto ho => ?_)
  · refine .inr ⟨?_,by rw [h]⟩
    rcases sourceSlot_error hs with rfl | rfl <;> decide
  rcases targetOutcome_cases hs ho with ⟨hsame,hres⟩ | ⟨rfl,t,name,hd,hcase⟩
  · refine .inr ⟨?_,by rw [hsame]⟩
    rcases hres with rfl | rfl <;> decide
  have hdir := hdirs p i t name hs hd
  obtain ⟨h2,hi,_⟩ := hdir.source.found_slot hdot hdotdot (sourceSlot_ok hs).2
  refine .inl ⟨rfl,p,i,t,name,hs,hd,?_⟩
  rcases hcase with ⟨hino,hmm⟩ | ⟨hne,ht,hl,found,j,hscan,hmm⟩
  · rw [hmm]
    exact entryKept_renameEntry hdir hino h2 hi
  have hrec := (hdir.dest ht).record
  have hscan' := (congrArg s.iom.insertScan hrec).symm.trans hscan
  obtain ⟨hfree,hfull⟩ := (hdir.dest ht).slots.insertScan_cases hscan'
  rw [hmm]
  cases found with
  | true => exact entryKept_moveEntry hdir ht hne hi (hfree rfl).1 (hfree rfl).2
  | false =>
    obtain ⟨l,hl',hu⟩ := hfit.slot p i t name hfrom hto hs hd hne ht hl
    exact absurd (hfull rfl l hl') hu

/-- With block addresses that fit an `int`, a rename keeps the object and reports what stands in its way exactly if
the parent of the target is there and a destination in another directory has room. -/
theorem rename_keeps_objects : RenameKeeps s fromPath toPath ↔ s.iom.RenameFits fromPath toPath := by
  constructor
  · intro hk
    refine ⟨fun hfrom hto => ?_,fun p i t name hfrom hto hs hd hne ht hl => ?_⟩
    · by_contra hn
      rw [not_or, not_exists] at hn
      obtain ⟨s',hrun⟩ := hk.parent hfrom hto hn.1 quietEnv_nominal
      have hwp : wp True (doRename fromPath toPath) (fun r _ => r ≠ -enoent) quietEnv s := by
        refine wp_doRename quietEnv_nominal.io hm haddr (fun hc => absurd quietEnv_nominal.malloc hc) (fun _ => trivial)
          (fun _ _ _ => trivial) (fun _ => trivial) (fun _ res _ hs => ?_) (fun _ p i res _ hs _ ho => ?_)
        · rintro rfl
          exact hn.2 hs
        · rcases targetOutcome_cases hs ho with ⟨_,rfl | rfl⟩ | ⟨rfl,_⟩ <;> decide
      exact hwp.elim hrun rfl
    · by_contra hfull
      simp only [not_exists, not_and, not_not] at hfull
      have hdir := hdirs p i t name hs hd
      obtain ⟨_,hi,_⟩ := hdir.source.found_slot hdot hdotdot (sourceSlot_ok hs).2
      have hslots := (hdir.dest ht).slots
      obtain ⟨⟨found,j⟩,hscan⟩ := Option.isSome_iff_exists.mp hslots.insertScan_isSome
      have hnot : found = false := by
        by_contra hf
        rw [Bool.not_eq_false] at hf
        obtain ⟨hj,hu⟩ := (hslots.insertScan_cases hscan).1 hf
        exact hu (hfull j hj)
      subst hnot
      have hscan' := (congrArg s.iom.insertScan (hdir.dest ht).record).trans hscan
      obtain ⟨s',hrun,hiom⟩ := rename_full hm haddr quietEnv_nominal hfrom hto hs hd hne ht hl hscan'
      obtain ⟨p',i',t',name',hs',hd',hkept⟩ := hk.success quietEnv_nominal.io hrun
      cases hs.symm.trans hs'
      cases hd.symm.trans hd'
      rw [hiom] at hkept
      exact not_entryKept_moveEntry hdir ht hne hi hkept
  · intro hfit
    refine ⟨fun hio hrun => ?_,fun hio hrun hr => ?_,fun hfrom hto hn e he => ?_⟩
    · rcases (rename_fits hm haddr hdot hdotdot hdirs hfit hio).elim hrun with ⟨_,h⟩ | ⟨hr,_⟩
      · exact h
      · exact absurd rfl hr
    · rcases (rename_fits hm haddr hdot hdotdot hdirs hfit hio).elim hrun with ⟨h,_⟩ | ⟨_,h⟩
      · exact absurd h hr
      · exact h
    · rcases hfit.parent hfrom hto with ⟨t,ht⟩ | hs
      · exact absurd ht (hn t)
      · exact rename_error hm haddr he hfrom hs

end Rename

/-! ## Two renames on one volume -/

theorem Iom.DirSlots.slotNum_eq (h : m.DirSlots p.iIno.toNat n) : m.slotNum p = n := by
  rw [Iom.slotNum, h.size, Int.toNat_natCast]
  exact Nat.mul_div_cancel_left n (by decide)

section Tests
variable (m : Iom) (fromPath toPath : List UInt8) (D i E b c : ℕ)

instance (ino : UInt32) (A j : ℕ) : Decidable (m.NamedAt ino A j) :=
  inferInstanceAs (Decidable (2 ≤ j ∧ m.SlotUsed A j ∧ (m.slotEntry A j).dIno = ino))

/-- `Iom.OwnDir` with 32 slots, for the record of a number that no other record has. -/
def Iom.ownDirTest : Bool :=
  m.dirSlotsTest D 32 b && decide (∀ k < m.inodeNum, (m.inode k).iIno.toNat = D → k = D) &&
  decide (∀ i < (2 : ℕ), m.SlotUsed D i) &&
  decide (∀ i < (2 : ℕ), cstr (m.slotEntry D i).dFilename = dotName ∨ cstr (m.slotEntry D i).dFilename = dotdotName)

/-- What the theorem on renames asks of the two paths, where they lead from slot `i` of `D` to `E`. -/
def Iom.renameTest : Bool :=
  m.ownDirTest D b && m.ownDirTest E c && decide (m.dataAddr E ≠ m.dataAddr D) &&
  decide ((m.sourceSlot fromPath).map (fun r => r.toOption.map (fun q => (q.1.iIno.toNat,q.2))) = some (some (D,i))) &&
  decide ((m.destination fromPath toPath).map (fun q => q.1.iIno.toNat) = some E) &&
  decide (∀ j < (32 : ℕ), m.NamedAt (m.slotEntry D i).dIno D j → j = i) &&
  decide (∀ j < (32 : ℕ), ¬m.NamedAt (m.slotEntry D i).dIno E j)

def Iom.addrTest : Bool := decide (∀ k < m.inodeNum, 2 ≤ k → m.dataAddr k < 2^31)

end Tests

variable {D E b c : ℕ}

theorem addrOk_of_test (h : m.addrTest = true) : m.AddrOk := fun k h2 hk => of_decide_eq_true h k hk h2

theorem ownDir_of_test (h : m.ownDirTest D b = true) (hp : p.iIno.toNat = D)
    (hr : m.readInode name = some (.ok (some p))) : m.OwnDir p 32 := by
  simp only [Iom.ownDirTest, Bool.and_eq_true, decide_eq_true_eq] at h
  obtain ⟨⟨⟨hd,hone⟩,hused⟩,hdots⟩ := h
  obtain ⟨k,_,hk,rfl,_⟩ := readInode_record hr
  obtain rfl := hone k hk hp
  exact ⟨by rw [hp],by rw [hp]; exact dirSlots_of_test hd,by rw [hp]; exact fun i hi => ⟨hused i hi,hdots i hi⟩⟩

theorem destination_readInode (h : m.destination fromPath toPath = some (t,name)) :
    ∃ x, m.readInode x = some (.ok (some t)) := by
  unfold Iom.destination at h
  split at h
  · next hr =>
    cases h
    exact ⟨_,hr⟩
  · split at h
    · cases h
    · split at h
      · next ht =>
        cases h
        exact ⟨_,ht⟩
      · cases h
  · cases h

theorem renameDirs_of_test (h : m.renameTest fromPath toPath D i E b c = true) :
    ∀ p l t name, m.sourceSlot fromPath = some (.ok (p,l)) → m.destination fromPath toPath = some (t,name) →
      (p.iIno.toNat = D ∧ l = i ∧ t.iIno.toNat = E ∧ m.slotNum p = 32 ∧ m.slotNum t = 32) ∧ m.RenameDirs p l t := by
  simp only [Iom.renameTest, Bool.and_eq_true, decide_eq_true_eq] at h
  obtain ⟨⟨⟨⟨⟨⟨hD,hE⟩,hne⟩,hs⟩,hd⟩,hone⟩,hnone⟩ := h
  intro p l t name hsrc hdst
  rw [hsrc] at hs
  rw [hdst] at hd
  simp only [Option.map_some, Except.toOption, Option.some.injEq, Prod.mk.injEq] at hs hd
  obtain ⟨hp,rfl⟩ := hs
  obtain ⟨y,hy⟩ := destination_readInode hdst
  have hop := ownDir_of_test hD hp (sourceSlot_ok hsrc).1
  have hot := ownDir_of_test hE hd hy
  have hnp := hop.slots.slotNum_eq
  have hnt := hot.slots.slotNum_eq
  refine ⟨⟨hp,rfl,hd,hnp,hnt⟩,⟨hnp.symm ▸ hop,fun _ => hnt.symm ▸ hot,fun _ => by rw [hp, hd]; exact hne,fun A j hA hn => ?_⟩⟩
  rw [hp] at hn ⊢
  rcases hA with ⟨rfl,hj⟩ | ⟨rfl,hj⟩
  · rw [hp] at hn ⊢
    exact ⟨rfl,hone j (hnp ▸ hj) hn⟩
  · rw [hd] at hn
    exact absurd hn (hnone j (hnt ▸ hj))

/-- The image of a device whose root is full. Its first entry is a directory with one file. -/
def fullRoot : Device :=
  let dir : Inode := { Inode.zero with
    iIno := 3, iType := lab4TypeDirectory, iSize := 4096, iVersion := 1, iLinksCount := 2
    iBlocks := fun j => if j = 0 then 5 * 8192 else 0 }
  let file : Inode := { Inode.zero with iIno := 33, iType := lab4TypeFile, iVersion := 1, iLinksCount := 1 }
  let bytes := splice fullDevice.bytes (3 * 8192 + 3 * 128) 128 (inodeCodec.enc dir)
  let bytes := splice bytes (3 * 8192 + 33 * 128) 128 (inodeCodec.enc file)
  let bytes := splice bytes (8192 + 4) 1 (fun _ => 3)
  let bytes := splice bytes (2 * 8192) 1 (fun _ => 3)
  let bytes := splice bytes (5 * 8192) 256 (newDirArea 3 2)
  ⟨splice bytes (5 * 8192 + 256) 128 (dirEntryCodec.enc (DirEntry.used 33 1 [120])),200,1024⟩

/-- From the root into the directory, which has room. -/
theorem rename_keeps_objects_room : ∃ s0, mount quietEnv ⟨openDevice fullRoot,0⟩ = some (true,s0) ∧
    RenameKeeps s0 [47,98] [47,97,47,121] := by
  have h : (mount quietEnv ⟨openDevice fullRoot,0⟩).map (fun p => (p.1,p.2.iom.mountedTest && p.2.iom.addrTest &&
      p.2.iom.renameTest [47,98] [47,97,47,121] 2 3 3 0 1,decide (p.2.iom.SlotUsed 3 5),
      decide ((p.2.iom.readInode (dirName [47,97,47,121])).map (fun r => r.toOption.map Option.isSome) = some (some true)))) =
      some (true,true,false,true) := by decide +kernel
  obtain ⟨⟨ok,s0⟩,hrun,hp⟩ := Option.map_eq_some_iff.mp h
  simp only [Prod.mk.injEq, Bool.and_eq_true] at hp
  obtain ⟨rfl,⟨⟨hm,ha⟩,ht⟩,hfree,hparent⟩ := hp
  replace hparent := of_decide_eq_true hparent
  have hdirs := renameDirs_of_test ht
  refine ⟨s0,hrun,(rename_keeps_objects (mounted_of_test hm) (addrOk_of_test ha) (by decide) (by decide)
    (fun p l t name hs hd => (hdirs p l t name hs hd).2)).mpr ⟨fun _ _ => .inl ?_,fun p l t name _ _ hs hd _ _ _ => ?_⟩⟩
  · rcases hr : s0.iom.readInode (dirName [47,97,47,121]) with _ | (res | (_ | t)) <;> rw [hr] at hparent
    · cases hparent
    · cases hparent
    · cases hparent
    · exact ⟨t,rfl⟩
  · obtain ⟨_,_,ht,_,hn⟩ := (hdirs p l t name hs hd).1
    rw [ht, hn]
    exact ⟨5,by decide,of_decide_eq_false hfree⟩

set_option maxRecDepth 100000 in
/-- From the directory into the full root: `do_rename` reports success and the file has no entry. -/
theorem full_destination_loses_entry : ∃ s0 s1, mount quietEnv ⟨openDevice fullRoot,0⟩ = some (true,s0) ∧
    s0.iom.Mounted ∧ s0.iom.AddrOk ∧ (∀ p i t name, s0.iom.sourceSlot [47,97,47,120] = some (.ok (p,i)) →
      s0.iom.destination [47,97,47,120] [47,89] = some (t,name) → s0.iom.RenameDirs p i t) ∧
    lookupIn quietEnv s0 3 [120] = some (lab4Success,33) ∧
    doRename [47,97,47,120] [47,89] quietEnv s0 = some (lab4Success,s1) ∧
    (∀ j < 32, ¬s1.iom.NamedAt 33 2 j ∧ ¬s1.iom.NamedAt 33 3 j) ∧ ¬RenameKeeps s0 [47,97,47,120] [47,89] := by
  have h : (mount quietEnv ⟨openDevice fullRoot,0⟩).map (fun p => (p.1,p.2.iom.mountedTest && p.2.iom.addrTest &&
      p.2.iom.renameTest [47,97,47,120] [47,89] 3 2 2 1 0,lookupIn quietEnv p.2 3 [120],(p.2.iom.slotEntry 3 2).dIno)) =
      some (true,true,some (lab4Success,33),33) := by decide +kernel
  have hr : ((mount >>= fun _ => doRename [47,97,47,120] [47,89]) quietEnv ⟨openDevice fullRoot,0⟩).map
      (fun p => (p.1,decide (∀ j < (32 : ℕ), ¬p.2.iom.NamedAt 33 2 j),decide (∀ j < (32 : ℕ), ¬p.2.iom.NamedAt 33 3 j))) =
      some (lab4Success,true,true) := by decide +kernel
  obtain ⟨⟨ok,s0⟩,hrun,hp⟩ := Option.map_eq_some_iff.mp h
  simp only [Prod.mk.injEq, Bool.and_eq_true] at hp
  obtain ⟨rfl,⟨⟨hm,ha⟩,ht⟩,hlook,hino⟩ := hp
  obtain ⟨⟨r,s1⟩,hq,hr⟩ := Option.map_eq_some_iff.mp hr
  rw [bind_apply, hrun] at hq
  simp only [Prod.mk.injEq, decide_eq_true_eq] at hr
  obtain ⟨rfl,hroot,hdir⟩ := hr
  have hdirs := renameDirs_of_test ht
  refine ⟨s0,s1,hrun,mounted_of_test hm,addrOk_of_test ha,fun p i t name hs hd => (hdirs p i t name hs hd).2,hlook,hq,
    fun j hj => ⟨hroot j hj,hdir j hj⟩,fun hk => ?_⟩
  obtain ⟨p,i,t,name,hs,hd,⟨A,j,hA,hn,_⟩,_⟩ := hk.success quietEnv_nominal.io hq
  obtain ⟨hp,rfl,ht,hnp,hnt⟩ := (hdirs p i t name hs hd).1
  rw [hp, hino] at hn
  rcases hA with ⟨rfl,hj⟩ | ⟨rfl,hj⟩
  · rw [hp] at hn
    exact hdir j (hnp ▸ hj) hn
  · rw [ht] at hn
    exact hroot j (hnt ▸ hj) hn

end SimpleFS
