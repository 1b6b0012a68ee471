import SimpleFS.Consistency

/-! # The inode table as an array

A record is stored, cleared and read by its number. Two of the three functions compare its byte position
with the length of the table: the position has 32 bits and wraps, and the one right behind the table
passes.
-/
namespace SimpleFS
open Bytes Machine Prog

variable {e : Env} {s s' : Sys} {k : UInt32} {v : Inode}

/-- What storing or clearing record `k` leaves: `v` where the record is read, and the other records. -/
structure OneRecord (s s' : Sys) (k : UInt32) (v : Inode) : Prop where
  read : ∀ {e : Env}, e.MallocOk → ∃ t, doReadInode k e s' = some (some v,t)
  others : ∀ l, l ≠ k.toNat → s'.iom.inode l = s.iom.inode l

/-- A number inside the table names a record of its own, one outside it is turned down. -/
structure TableRecord (s : Sys) (k : UInt32) : Prop where
  write : 2 ≤ k.toNat → k.toNat < s.iom.inodeNum → ∀ {e : Env} {v : Inode}, v.iIno = k →
    ∃ s', writeInodeToItble v e s = some (lab4Success,s') ∧ OneRecord s s' k v
  delete : 2 ≤ k.toNat → k.toNat < s.iom.inodeNum → ∀ {e : Env} {v : Inode}, v.iIno = k →
    ∃ s', deleteInodeFromItble v e s = some (lab4Success,s') ∧ OneRecord s s' k Inode.zero
  rejected : s.iom.inodeNum ≤ k.toNat → ∀ {e : Env} {v : Inode}, v.iIno = k →
    (∃ s', writeInodeToItble v e s = some (lab4Error,s') ∧ s'.iom = s.iom) ∧
    (∃ s', deleteInodeFromItble v e s = some (lab4Error,s') ∧ s'.iom = s.iom) ∧
    ∃ s', doReadInode k e s = some (none,s')

/-! ## Numbers inside the table -/

theorem oneRecord_setInode (h2 : 2 ≤ k.toNat) (hk : k.toNat < s.iom.inodeNum) (hs : s'.iom = s.iom.setInode k.toNat v) :
    OneRecord s s' k v := by
  have hnum : s'.iom.inodeNum = s.iom.inodeNum := by simp [hs, Iom.inodeNum]
  have hrec : s'.iom.inode k.toNat = v := by simp [hs, inode_setInode]
  constructor
  · intro e he
    have hrun : wp False (doReadInode k) (fun o _ => o = some v) e s' := by
      refine wp_doReadInode (fun _ _ hn => ?_) (fun _ hn => ?_) (fun _ _ _ _ => by rw [hrec])
      · rcases hn with hn | hn
        · omega
        · exact absurd he hn
      · omega
    obtain ⟨o,t,hr,rfl⟩ := wp_false.mp hrun
    exact ⟨t,hr⟩
  · intro l hl
    simp [hs, inode_setInode, hl]

section Inside
variable (hcs : s.iom.sbi.clusterSize = s.iom.clusterSize) (hlt : s.iom.clusterSize < 2^31) (hk : k.toNat < s.iom.inodeNum)
include hcs hlt hk

/-- The position of a record of the table is no larger than the table, as `int` and as `unsigned`. -/
theorem inodePos_le : ¬toS32 (k.toNat * lab4InodeEntrySize : ℕ) > s.iom.sbi.clusterSize ∧
    ¬toU32 (k.toNat * lab4InodeEntrySize : ℕ) > s.iom.sbi.clusterSize := by
  have hmul : k.toNat * lab4InodeEntrySize ≤ s.iom.clusterSize :=
    (Nat.mul_le_mul_right lab4InodeEntrySize hk.le).trans (Nat.div_mul_le_self _ _)
  rw [toS32_natCast (by omega), toU32_natCast (by omega), hcs]
  constructor <;> omega

theorem writeInodeToItble_inside (hv : v.iIno = k) :
    writeInodeToItble v e s = some (lab4Success,{ s with iom := s.iom.setInode k.toNat v }) := by
  have hpos := (inodePos_le hcs hlt hk).1
  have hin : ¬s.iom.inodeNum ≤ k.toNat := by omega
  push_cast at hpos
  subst hv
  simp [writeInodeToItble, getIom, setIom, hpos, hin]

theorem deleteInodeFromItble_inside (hv : v.iIno = k) :
    deleteInodeFromItble v e s = some (lab4Success,{ s with iom := s.iom.setInode k.toNat Inode.zero }) := by
  have hpos := (inodePos_le hcs hlt hk).2
  have hin : ¬s.iom.inodeNum ≤ k.toNat := by omega
  push_cast at hpos
  subst hv
  simp [deleteInodeFromItble, getIom, setIom, hpos, hin]

end Inside

/-! ## Numbers behind the table -/

section Behind
variable (hk : s.iom.inodeNum ≤ k.toNat)
include hk

/-- A number behind the table is rejected exactly when its position, as an `int`, is larger than the table. -/
theorem writeInodeToItble_behind (hv : v.iIno = k) : writeInodeToItble v e s =
    if toS32 (k.toNat * lab4InodeEntrySize) > s.iom.sbi.clusterSize then some (lab4Error,s) else none := by
  subst hv
  by_cases hpos : toS32 (v.iIno.toNat * lab4InodeEntrySize) > s.iom.sbi.clusterSize
  · simp [writeInodeToItble, getIom, hpos]
  · simp [writeInodeToItble, getIom, hpos, hk]

/-- The other function compares the position as an `unsigned`. -/
theorem deleteInodeFromItble_behind (hv : v.iIno = k) : deleteInodeFromItble v e s =
    if toU32 (k.toNat * lab4InodeEntrySize) > s.iom.sbi.clusterSize then some (lab4Error,s) else none := by
  subst hv
  by_cases hpos : toU32 (v.iIno.toNat * lab4InodeEntrySize) > s.iom.sbi.clusterSize
  · simp [deleteInodeFromItble, getIom, hpos]
  · simp [deleteInodeFromItble, getIom, hpos, hk]

/-- `do_read_inode` has no bound at all. -/
theorem doReadInode_behind (h2 : 2 ≤ k.toNat) (he : e.MallocOk) : doReadInode k e s = none := by
  have hlow : ¬k.toNat < lab4RootIno := Nat.not_lt.mpr h2
  simp [doReadInode, hlow, malloc, he s.clock, getIom, Sys.next, hk]

end Behind

/-! ## The law -/

/-- The three functions treat number `k` as an index of an array exactly when it is one. -/
theorem inode_table_records (hcs : s.iom.sbi.clusterSize = s.iom.clusterSize) (hlt : s.iom.clusterSize < 2^31)
    (hnum : 2 ≤ s.iom.inodeNum) : TableRecord s k ↔ k.toNat < s.iom.inodeNum := by
  constructor
  · intro h
    by_contra hk
    rw [Nat.not_lt] at hk
    obtain ⟨_,_,s',hread⟩ := @TableRecord.rejected s k h hk quietEnv { Inode.zero with iIno := k } rfl
    rw [doReadInode_behind hk (by omega) quietEnv_nominal.malloc] at hread
    cases hread
  · intro hk
    refine ⟨fun h2 _ e v hv => ⟨_,writeInodeToItble_inside hcs hlt hk hv,oneRecord_setInode h2 hk rfl⟩,
      fun h2 _ e v hv => ⟨_,deleteInodeFromItble_inside hcs hlt hk hv,oneRecord_setInode h2 hk rfl⟩,fun hn => ?_⟩
    omega

/-- The root record of a new volume. -/
theorem inode_table_records_root : ∃ s0, formatAndMount quietEnv (blankDisk 80) = some (true,s0) ∧ TableRecord s0 2 := by
  obtain ⟨s0,root,a,b,hrun,_,h0⟩ := blankDisk_fresh
  have hm : s0.iom.Mounted := h0 ▸ fresh_mounted (.inl rfl)
  have hcs := hm.cluster_le
  have hnum := hm.inodeNum_le
  have hroot : (2 : UInt32).toNat < s0.iom.inodeNum := lt_of_lt_of_le (by decide : (2 : UInt32).toNat < 32) hnum.1
  exact ⟨s0,hrun,(inode_table_records hm.sbiCluster (by omega) (by omega)).mpr hroot⟩

/-- The number right behind the table of a new volume passes the comparison. -/
theorem inode_behind_table_stored : ∃ s0, formatAndMount quietEnv (blankDisk 80) = some (true,s0) ∧
    s0.iom.Mounted ∧ s0.iom.inodeNum = 32 ∧
    writeInodeToItble { Inode.zero with iIno := 32 } quietEnv s0 = none ∧ ¬TableRecord s0 32 := by
  obtain ⟨s0,root,a,b,hrun,_,h0⟩ := blankDisk_fresh
  have hm : s0.iom.Mounted := h0 ▸ fresh_mounted (.inl rfl)
  have hcs : s0.iom.clusterSize = 4096 := h0 ▸ fresh_clusterSize (.inl rfl)
  have hnum : s0.iom.inodeNum = 32 := by
    rw [Iom.inodeNum, hcs]
    rfl
  have hpos : ¬toS32 ((32 : UInt32).toNat * lab4InodeEntrySize) > s0.iom.sbi.clusterSize := by
    rw [hm.sbiCluster, hcs]
    decide
  have hstored : writeInodeToItble { Inode.zero with iIno := 32 } quietEnv s0 = none := by
    rw [writeInodeToItble_behind (k := 32) (by rw [hnum]; decide) rfl, if_neg hpos]
  refine ⟨s0,hrun,hm,hnum,hstored,fun h => ?_⟩
  obtain ⟨⟨_,hw,_⟩,_⟩ := @TableRecord.rejected s0 32 h (by rw [hnum]; decide) quietEnv { Inode.zero with iIno := 32 } rfl
  rw [hstored] at hw
  cases hw

end SimpleFS
