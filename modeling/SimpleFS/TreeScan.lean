import SimpleFS.Tree

/-! # Slot loops on the tree

Over the block of a live directory the three slot loops are questions about its slots: the first one
that binds a name, the first one that binds nothing, whether one behind the dot entries binds anything.
-/
namespace SimpleFS
open Bytes Machine SlotTree

variable {m : Iom} {D k i j : ℕ} {x : List UInt8} {found : Bool}

theorem Iom.kind_tree (m : Iom) : m.tree.kind = m.books.kind := (rfl)

namespace Iom.Mounted
variable (hm : m.Mounted) (hl : m.books.Ledger) (hD : m.tree.kind D = some .dir)
include hl hD

theorem dir_size : (m.inode D).iSize.toInt = 4096 := by
  have : (m.inode D).iSize = 4096 := hl.dir_size hD
  rw [this]
  decide

theorem dir_addr : m.dataAddr D = m.blockAddr (m.books.block D) ∧ m.blockAddr (m.books.block D) + m.clusterSize ≤ 2^31 :=
  ⟨(hl.owns_dir hD).1.addr,(hl.owns_dir hD).2.1⟩

theorem dir_live : 2 ≤ D ∧ D < m.inodeNum := ⟨((Books.kind_eq_dir hl).mp hD).1.1,((Books.kind_eq_dir hl).mp hD).1.2.1⟩

theorem slotEntry_eq (hi : i < lab4DirEntryNum) : m.slotEntry D i = m.entries (m.books.block D) i := by
  rw [entries_of_lt hi, Iom.slotEntry, entryAt, (dir_addr hl hD).1]
  exact dirEntryCodec.dec_congr (fun a _ _ => by
    simp only [Mem.shift_apply]
    rw [Nat.add_assoc])

/-- A slot of the tree is what the entry on the device binds. -/
theorem tree_slot (hi : i < lab4DirEntryNum) : m.tree.slot D i = (m.slotEntry D i).binding := by
  rw [slotEntry_eq hl hD hi]
  exact if_pos ⟨hD,hi⟩

omit hl hD in
theorem tree_slot_of_le (hi : lab4DirEntryNum ≤ i) : m.tree.slot D i = none := if_neg (fun h => by omega)

omit hD hl in
theorem lookupHit_iff {d : DirEntry} : lookupHit x d = true ↔ d.binding = some (x,d.dIno.toNat) := by
  unfold lookupHit DirEntry.binding
  by_cases hf : d.dFlag = lab4DirUsed <;> simp [hf]

omit hD hl in
theorem binding_name {d : DirEntry} (h : d.binding = some (x,k)) : lookupHit x d = true ∧ k = d.dIno.toNat := by
  unfold DirEntry.binding at h
  split at h
  · next hf =>
    cases h
    exact ⟨by simp [lookupHit, hf],rfl⟩
  · cases h

theorem scan_bound {test : DirEntry → Option Bool} (hs : m.scan test D = some (found,i)) :
    (found = true → i < lab4DirEntryNum) ∧ (found = false → i = lab4DirEntryNum) := by
  have hsc := (slotLoop_scan hs).1
  rw [dir_size hl hD] at hsc
  refine ⟨fun hf => ?_,fun hf => ?_⟩
  · have := (hsc.hit hf).1
    unfold lab4DirEntryNum lab4DirEntrySize at *
    omega
  · have hst := hsc.stop hf
    have hge : lab4DirEntryNum ≤ i := by
      unfold lab4DirEntryNum lab4DirEntrySize at *
      omega
    by_contra hne
    have := (hsc.miss lab4DirEntryNum (Nat.zero_le _) (by omega)).1
    unfold lab4DirEntryNum lab4DirEntrySize at this
    omega

/-- A found name is bound in its slot. -/
theorem scan_found (hx : x.length < fnameSize) (hs : m.scan (lookupTest x) D = some (true,i)) :
    i < lab4DirEntryNum ∧ m.tree.slot D i = some (x,(m.slotEntry D i).dIno.toNat) := by
  have hi := (scan_bound hl hD hs).1 rfl
  refine ⟨hi,?_⟩
  rw [tree_slot hl hD hi]
  have hh := ((slotLoop_scan hs).1.hit rfl).2
  rw [lookupTest_eq hx] at hh
  exact lookupHit_iff.mp (Option.some.inj hh)

theorem scan_not_found (hx : x.length < fnameSize) (hs : m.scan (lookupTest x) D = some (false,i)) :
    ∀ k, ¬m.tree.Binds D x k := by
  rintro k ⟨j,hj⟩
  have hi := (scan_bound hl hD hs).2 rfl
  by_cases hjn : j < lab4DirEntryNum
  · rw [tree_slot hl hD hjn] at hj
    have hmiss := ((slotLoop_scan hs).1.miss j (Nat.zero_le j) (by omega)).2
    rw [lookupTest_eq hx] at hmiss
    have := (binding_name hj).1
    rw [show lookupHit x (m.slotEntry D j) = false from Option.some.inj hmiss] at this
    cases this
  · rw [tree_slot_of_le (by omega)] at hj
    cases hj

include hm

theorem scan_isSome {test : DirEntry → Option Bool} (ht : ∀ d, (test d).isSome) : (m.scan test D).isSome := by
  refine slotLoop_isSome ht ?_
  have hcs := hm.cluster_le
  have hs := hm.slots
  rw [dir_size hl hD]
  unfold lab4DirEntrySize at *
  omega

/-- A bound name is found, in the only slot with it. -/
theorem scan_of_binds (hu : Unique m.tree) (hx : x.length < fnameSize) (hb : m.tree.slot D i = some (x,k)) :
    m.scan (lookupTest x) D = some (true,i) := by
  obtain ⟨⟨found,j⟩,hs⟩ := Option.isSome_iff_exists.mp (hm.scan_isSome hl hD (lookupTest_isSome hx))
  cases found with
  | false => exact absurd ⟨i,hb⟩ (scan_not_found hl hD hx hs k)
  | true =>
    obtain ⟨_,hj⟩ := scan_found hl hD hx hs
    rw [hs, hu D j i x _ k hj hb]

/-! ## Free slots -/

omit hD hl hm in
theorem freeTest_binding {d : DirEntry} : freeTest d = some true ↔ d.binding = none := by
  unfold freeTest DirEntry.binding
  by_cases hf : d.dFlag = lab4DirUsed <;> simp [hf]

omit hD hl hm in
theorem insertScan_eq (m : Iom) (D : ℕ) : m.insertScan (m.inode D) = m.scan freeTest D := (rfl)

/-- Both loops for a free slot look at the slots of the directory. -/
theorem freeScan_eq : m.freeScan (m.inode D) = m.scan freeTest D := by
  have hcs := hm.cluster_le
  have hsz := dir_size hl hD
  -- the loop stops at the end of the directory, so the bytes behind it do not matter
  have hgen : ∀ left i, slotLoop freeTest 4096 (splice zeros 0 4096 (m.dev.bytes.shift (m.dataAddr D))) left i =
      slotLoop freeTest 4096 (m.dev.bytes.shift (m.dataAddr D)) left i := by
    intro left
    induction left with
    | zero => exact fun i => rfl
    | succ left ih =>
      intro i
      rw [slotLoop, slotLoop]
      split
      · next hlt => rw [entryAt_read (by unfold lab4DirEntrySize at *; omega), ih]
      · rfl
  unfold Iom.freeScan Iom.scan
  rw [hsz]
  exact hgen _ _

theorem freeScan_cases (hs : Sound shape m.tree) (hf : m.freeScan (m.inode D) = some (found,i)) :
    (found = true ∧ 2 ≤ i ∧ i < lab4DirEntryNum ∧ m.tree.slot D i = none) ∨
      (found = false ∧ i = lab4DirEntryNum ∧ ∀ j, 2 ≤ j → j < lab4DirEntryNum → m.tree.slot D j ≠ none) := by
  rw [hm.freeScan_eq hl hD] at hf
  have hsc := (slotLoop_scan hf).1
  cases found with
  | true =>
    have hi := (scan_bound hl hD hf).1 rfl
    have hnone : m.tree.slot D i = none := by
      rw [tree_slot hl hD hi]
      exact freeTest_binding.mp (hsc.hit rfl).2
    refine .inl ⟨rfl,?_,hi,hnone⟩
    by_contra hlt
    rcases (show i = 0 ∨ i = 1 by omega) with rfl | rfl
    · rw [hs.self D hD] at hnone
      cases hnone
    · obtain ⟨p,hp⟩ := hs.up D hD
      rw [hp] at hnone
      cases hnone
  | false =>
    have hi := (scan_bound hl hD hf).2 rfl
    refine .inr ⟨rfl,hi,fun j _ hj hn => ?_⟩
    rw [tree_slot hl hD hj] at hn
    have hmiss := (hsc.miss j (Nat.zero_le j) (by omega)).2
    cases (freeTest_binding.mpr hn).symm.trans hmiss

/-! ## Empty directories -/

theorem usedScan_isSome : (m.usedScan D).isSome := by
  refine slotLoop_isSome (fun _ => rfl) ?_
  have hcs := hm.cluster_le
  have hs := hm.slots
  rw [dir_size hl hD]
  unfold lab4DirEntrySize at *
  omega

omit hm in
/-- The slot that stops the loop is a bound one. -/
theorem usedScan_used (hs : m.usedScan D = some (true,i)) : 2 ≤ i ∧ m.tree.slot D i ≠ none := by
  have hsc := (slotLoop_scan hs).1
  rw [dir_size hl hD] at hsc
  obtain ⟨hlt,ht⟩ := hsc.hit rfl
  have hi : i < lab4DirEntryNum := by
    unfold lab4DirEntryNum lab4DirEntrySize at *
    omega
  refine ⟨hsc.le,?_⟩
  have hused : (m.slotEntry D i).dFlag = lab4DirUsed := of_decide_eq_true (Option.some.inj ht)
  rw [tree_slot hl hD hi, binding_of_used hused]
  exact Option.some_ne_none _

omit hm in
theorem usedScan_empty (he : m.usedScan D = some (false,i)) (hj : 2 ≤ j) : m.tree.slot D j = none := by
  by_cases hjn : j < lab4DirEntryNum
  · have hsc := (slotLoop_scan he).1
    rw [dir_size hl hD] at hsc
    have hst := hsc.stop rfl
    rw [tree_slot hl hD hjn]
    have hmiss := (hsc.miss j hj (by unfold lab4DirEntryNum lab4DirEntrySize at *; omega)).2
    refine binding_of_not_used (fun hf => ?_)
    unfold usedTest at hmiss
    unfold Iom.slotEntry at hf
    simp [hf] at hmiss
  · exact tree_slot_of_le (by omega)

end Iom.Mounted

end SimpleFS
