import SimpleFS.Machine.SlotTreeOps
import Mathlib.Data.Finset.Card

/-! # Counting the subdirectories of a slotted tree

Each directory has a count that should be two more than the number of its slots that lead to a directory.
Adding and removing a directory change the count of its parent by one. Nothing else changes a count, as long
as a directory moves within its parent only.
-/
namespace SimpleFS.Machine

namespace SlotTree
variable {ι ν : Type}

/-- Slot `i` of `D` binds a directory. -/
def LeadsDown (t : SlotTree ι ν) (D : ι) (i : ℕ) : Prop := ∃ o, t.slot D i = some o ∧ t.kind o.2 = some .dir

instance (t : SlotTree ι ν) (D : ι) (i : ℕ) : Decidable (t.LeadsDown D i) :=
  match h : t.slot D i with
  | none => isFalse (fun ⟨o,ho,_⟩ => by rw [h] at ho; cases ho)
  | some o => decidable_of_iff (t.kind o.2 = some .dir) (by simp [LeadsDown, h])

/-- The number of directories bound behind the reserved slots. -/
def subdirs (S : Shape ι ν) (t : SlotTree ι ν) (D : ι) : ℕ := ((Finset.Ico 2 S.cap).filter (t.LeadsDown D)).card

variable {S : Shape ι ν} {t t' : SlotTree ι ν} {D E k l : ι} {i j : ℕ} {x x' : ν}

theorem subdirs_le : subdirs S t D ≤ S.cap := by
  have h := Finset.card_filter_le (Finset.Ico 2 S.cap) (t.LeadsDown D)
  rw [Nat.card_Ico] at h
  unfold subdirs
  omega

theorem subdirs_congr (h : ∀ j, 2 ≤ j → (t'.LeadsDown D j ↔ t.LeadsDown D j)) : subdirs S t' D = subdirs S t D := by
  unfold subdirs
  rw [Finset.filter_congr (fun j hj => h j (Finset.mem_Ico.mp hj).1)]

theorem subdirs_eq_zero (h : ∀ j, 2 ≤ j → ¬t.LeadsDown D j) : subdirs S t D = 0 :=
  Finset.card_eq_zero.mpr (Finset.filter_eq_empty_iff.mpr (fun _ hj => h _ (Finset.mem_Ico.mp hj).1))

/-- One slot more leads down. -/
theorem subdirs_succ (hi : 2 ≤ i) (hcap : i < S.cap) (hold : ¬t.LeadsDown D i) (hnew : t'.LeadsDown D i)
    (h : ∀ j, 2 ≤ j → j ≠ i → (t'.LeadsDown D j ↔ t.LeadsDown D j)) : subdirs S t' D = subdirs S t D + 1 := by
  have hset : (Finset.Ico 2 S.cap).filter (t'.LeadsDown D) = insert i ((Finset.Ico 2 S.cap).filter (t.LeadsDown D)) := by
    ext j
    rw [Finset.mem_insert, Finset.mem_filter, Finset.mem_filter]
    by_cases hj : j = i
    · subst hj
      simp [hnew, hi, hcap]
    · refine ⟨fun hm => .inr ⟨hm.1,(h j (Finset.mem_Ico.mp hm.1).1 hj).mp hm.2⟩,fun hm => ?_⟩
      obtain ⟨hr,hl⟩ := hm.resolve_left hj
      exact ⟨hr,(h j (Finset.mem_Ico.mp hr).1 hj).mpr hl⟩
  unfold subdirs
  rw [hset, Finset.card_insert_of_notMem (fun hm => hold (Finset.mem_filter.mp hm).2)]

/-! ## What the changes do to the slots that lead down -/

section Changes
variable [DecidableEq ι]

theorem leadsDown_setSlot {o : Option (ν × ι)} (h : ¬(E = D ∧ j = i)) :
    (t.setSlot D i o).LeadsDown E j ↔ t.LeadsDown E j := by
  unfold LeadsDown
  rw [slot_setSlot_of_ne (by tauto), kind_setSlot]

theorem not_leadsDown_clear : ¬(t.setSlot D i none).LeadsDown D i := by
  rintro ⟨o,ho,_⟩
  rw [slot_setSlot_self] at ho
  cases ho

theorem leadsDown_bind : (t.setSlot D i (some (x,k))).LeadsDown D i ↔ t.kind k = some .dir := by
  unfold LeadsDown
  rw [slot_setSlot_self, kind_setSlot]
  simp

omit [DecidableEq ι] in
theorem leadsDown_bound (h : t.slot D i = some (x,k)) : t.LeadsDown D i ↔ t.kind k = some .dir := by
  unfold LeadsDown
  rw [h]
  simp

/-- A node nobody binds changes the slots of no other node. -/
theorem leadsDown_setNode {c : Option Kind} {f : ℕ → Option (ν × ι)} (hE : E ≠ k) (hk : ∀ y, t.slot E j ≠ some (y,k)) :
    (t.setNode k c f).LeadsDown E j ↔ t.LeadsDown E j := by
  unfold LeadsDown
  rw [slot_setNode_of_ne hE]
  refine exists_congr (fun o => and_congr_right (fun ho => ?_))
  rw [kind_setNode_of_ne]
  rintro rfl
  exact hk o.1 ho

theorem leadsDown_newNode {c : Kind} {p : ι} (h : Sound S t) (hk : t.kind k = none) (hE : E ≠ k) (hj : 2 ≤ j) :
    (newNode S t c k p).LeadsDown E j ↔ t.LeadsDown E j := by
  cases c <;> exact leadsDown_setNode hE (fun _ => h.not_bound hk hj)

theorem not_leadsDown_newNode {c : Kind} {p : ι} (hj : 2 ≤ j) : ¬(newNode S t c k p).LeadsDown k j := by
  rintro ⟨o,ho,_⟩
  rw [slot_newNode_self hj] at ho
  cases ho

theorem leadsDown_add {c : Kind} (hv : Vacant S t k D i) (h : Sound S t) (hE : E ≠ k) (hj : 2 ≤ j) (hne : ¬(E = D ∧ j = i)) :
    (add S t c k D i x).LeadsDown E j ↔ t.LeadsDown E j :=
  (leadsDown_setSlot hne).trans (leadsDown_newNode h hv.new hE hj)

theorem leadsDown_add_self {c : Kind} : (add S t c k D i x).LeadsDown D i ↔ c = .dir := by
  unfold add
  rw [leadsDown_bind, kind_newNode, Function.update_self]
  simp

theorem not_leadsDown_add {c : Kind} (hv : Vacant S t k D i) (hj : 2 ≤ j) : ¬(add S t c k D i x).LeadsDown k j :=
  fun h => not_leadsDown_newNode hj ((leadsDown_setSlot (fun he => hv.ne he.1.symm)).mp h)

theorem leadsDown_remove (hl : Leaf t k D i x) (h : Sound S t) (hE : E ≠ k) (hj : 2 ≤ j) (hne : ¬(E = D ∧ j = i)) :
    (t.remove k D i).LeadsDown E j ↔ t.LeadsDown E j :=
  (leadsDown_setNode hE (fun _ => hl.unbound h hj)).trans (leadsDown_setSlot hne)

theorem not_leadsDown_remove (hl : Leaf t k D i x) : ¬(t.remove k D i).LeadsDown D i := by
  rintro ⟨o,ho,_⟩
  rw [remove, slot_setNode_of_ne hl.ne, slot_setSlot_self] at ho
  cases ho

end Changes

/-! ## Held directories -/

section Held
variable [DecidableEq ι]

theorem IsHeld.setSlot {o : Option (ν × ι)} (h : t.IsHeld l) (hne : ∀ y, t.slot D i ≠ some (y,l)) : (t.setSlot D i o).IsHeld l := by
  obtain ⟨E,j,y,hj,hs⟩ := h
  refine ⟨E,j,y,hj,?_⟩
  rw [slot_setSlot_of_ne, hs]
  by_contra hc
  push Not at hc
  obtain ⟨rfl,rfl⟩ := hc
  exact hne y hs

theorem IsHeld.newNode {c : Kind} {p : ι} (h : t.IsHeld l) (hs : Sound S t) (hk : t.kind k = none) :
    (newNode S t c k p).IsHeld l := by
  obtain ⟨E,j,y,hj,hb⟩ := h
  refine ⟨E,j,y,hj,?_⟩
  rw [slot_newNode_of_ne, hb]
  rintro rfl
  cases hk.symm.trans (hs.dir E j _ hb).1

end Held

/-! ## Counts and parents -/

/-- The counts are right, every directory but the root is bound, and its parent slot names the directory that binds it. -/
structure Linked (S : Shape ι ν) (t : SlotTree ι ν) (links : ι → ℕ) : Prop where
  count : ∀ D, t.kind D = some .dir → links D = 2 + subdirs S t D
  held : ∀ k, t.kind k = some .dir → k ≠ S.root → t.IsHeld k
  upward : Upward S t

variable [DecidableEq ι] {links links' : ι → ℕ}

theorem rootTree_linked (h : links S.root = 2) : Linked S (rootTree S) links := by
  refine ⟨fun D hD => ?_,fun k hk hr => absurd (rootTree_kind.mp hk) hr,rootTree_upward⟩
  obtain rfl := rootTree_kind.mp hD
  rw [h, subdirs_eq_zero]
  rintro j hj ⟨⟨y,l⟩,ho,_⟩
  have := freshDir_lt (rootTree_slot ho).2
  omega

namespace Linked
variable (h : Linked S t links) (hs : Sound S t)
include h

omit [DecidableEq ι] in
/-- A change that no count notices. -/
theorem same (hk : t'.kind = t.kind) (hl : ∀ E, t.kind E = some .dir → links' E = links E)
    (hd : ∀ E, t.kind E = some .dir → ∀ j, 2 ≤ j → (t'.LeadsDown E j ↔ t.LeadsDown E j))
    (hh : ∀ l, t.kind l = some .dir → t.IsHeld l → t'.IsHeld l) (hu : Upward S t') : Linked S t' links' := by
  refine ⟨fun E hE => ?_,fun l hl' hr => ?_,hu⟩
  · rw [hk] at hE
    rw [hl E hE, h.count E hE, subdirs_congr (hd E hE)]
  · rw [hk] at hl'
    exact hh l hl' (h.held l hl' hr)

include hs

/-- A new file that is not bound. -/
theorem newFile (hk : t.kind k = none) (hl : ∀ E, E ≠ k → links' E = links E) : Linked S (newNode S t .file k D) links' := by
  have hdir : ∀ E, (SlotTree.newNode S t .file k D).kind E = some .dir → E ≠ k ∧ t.kind E = some .dir := fun E hE => by
    rw [kind_newNode] at hE
    by_cases hEk : E = k
    · subst hEk
      rw [Function.update_self] at hE
      cases hE
    · rw [Function.update_of_ne hEk] at hE
      exact ⟨hEk,hE⟩
  refine ⟨fun E hE => ?_,fun l hl' hr => ?_,?_⟩
  · obtain ⟨hEk,hE⟩ := hdir E hE
    rw [hl E hEk, h.count E hE, subdirs_congr (fun j hj => leadsDown_newNode hs hk hEk hj)]
  · exact (h.held l (hdir l hl').2 hr).newNode hs hk
  · exact h.upward.node (hs.ne_root hk) (fun _ _ _ hj => hs.not_bound hk hj) (.inr rfl)

/-- A new file in a slot of `D`. -/
theorem addFile (hv : Vacant S t k D i) (hl : ∀ E, E ≠ k → links' E = links E) : Linked S (add S t .file k D i x) links' := by
  have hn := h.newFile hs (D := D) hv.new hl
  have hempty : ∀ y l, (SlotTree.newNode S t .file k D).slot D i ≠ some (y,l) := fun y l hb => by
    rw [slot_newNode_of_ne hv.ne, hv.empty] at hb
    cases hb
  have hfile : (SlotTree.newNode S t .file k D).kind k ≠ some .dir := by
    rw [kind_newNode, Function.update_self]
    decide
  refine hn.same rfl (fun _ _ => rfl) (fun E _ j hj => ?_) (fun l _ hl' => hl'.setSlot (fun y => hempty y l))
    (hv.upward hs h.upward)
  by_cases hj' : E = D ∧ j = i
  · obtain ⟨rfl,rfl⟩ := hj'
    refine ⟨fun hd => absurd (leadsDown_bind.mp hd) hfile,fun ⟨o,ho,_⟩ => ?_⟩
    exact absurd ho (hempty o.1 o.2)
  · exact leadsDown_setSlot hj'

/-- A new directory in a slot of `D`. -/
theorem addDir (hv : Vacant S t k D i) (hk : links' k = 2) (hD : links' D = links D + 1)
    (hl : ∀ E, E ≠ k → E ≠ D → links' E = links E) : Linked S (add S t .dir k D i x) links' := by
  have hkind : ∀ E, E ≠ k → (add S t .dir k D i x).kind E = t.kind E := fun E hE => by
    rw [add, kind_setSlot, kind_newNode, Function.update_of_ne hE]
  refine ⟨fun E hE => ?_,fun l hl' hr => ?_,hv.upward hs h.upward⟩
  · by_cases hEk : E = k
    · subst hEk
      rw [hk, subdirs_eq_zero (fun j hj => not_leadsDown_add hv hj)]
    · rw [hkind E hEk] at hE
      by_cases hED : E = D
      · subst hED
        have hold : ¬t.LeadsDown E i := by
          rintro ⟨o,ho,_⟩
          rw [hv.empty] at ho
          cases ho
        rw [hD, h.count E hE, subdirs_succ hv.lo hv.hi hold (leadsDown_add_self.mpr rfl)
          (fun j hj hne => leadsDown_add hv hs hEk hj (fun hc => hne hc.2)), Nat.add_assoc]
      · rw [hl E hEk hED, h.count E hE, subdirs_congr (fun j hj => leadsDown_add hv hs hEk hj (fun hc => hED hc.1))]
  · by_cases hlk : l = k
    · subst hlk
      exact ⟨D,i,x,hv.lo,slot_setSlot_self⟩
    · rw [hkind l hlk] at hl'
      refine ((h.held l hl' hr).newNode hs hv.new).setSlot (fun y hb => ?_)
      rw [slot_newNode_of_ne hv.ne, hv.empty] at hb
      cases hb

/-- A file goes away with its slot. -/
theorem removeFile (hb : Leaf t k D i x) (hk : t.kind k = some .file) (hl : ∀ E, E ≠ k → links' E = links E) :
    Linked S (t.remove k D i) links' := by
  have hdir : ∀ E, (t.remove k D i).kind E = some .dir → E ≠ k ∧ t.kind E = some .dir := fun E hE => by
    by_cases hEk : E = k
    · subst hEk
      rw [remove, kind_setNode_self] at hE
      cases hE
    · rw [remove, kind_setNode_of_ne hEk, kind_setSlot] at hE
      exact ⟨hEk,hE⟩
  refine ⟨fun E hE => ?_,fun l hl' hr => ?_,hb.upward hs h.upward⟩
  · obtain ⟨hEk,hE⟩ := hdir E hE
    rw [hl E hEk, h.count E hE]
    congr 1
    refine (subdirs_congr (fun j hj => ?_)).symm
    by_cases hj' : E = D ∧ j = i
    · obtain ⟨rfl,rfl⟩ := hj'
      have hold : ¬t.LeadsDown E j := fun hd => by cases hk.symm.trans ((leadsDown_bound hb.bound).mp hd)
      exact ⟨fun hd => absurd hd (not_leadsDown_remove hb),fun hd => absurd hd hold⟩
    · exact leadsDown_remove hb hs hEk hj hj'
  · obtain ⟨hlk,hl'⟩ := hdir l hl'
    exact (h.held l hl' hr).remove hb.bound hb.empty hlk

/-- An empty directory goes away with its slot. -/
theorem removeDir (hb : Leaf t k D i x) (hk : t.kind k = some .dir) (hD : links' D + 1 = links D)
    (hl : ∀ E, E ≠ k → E ≠ D → links' E = links E) : Linked S (t.remove k D i) links' := by
  have hdir : ∀ E, (t.remove k D i).kind E = some .dir → E ≠ k ∧ t.kind E = some .dir := fun E hE => by
    by_cases hEk : E = k
    · subst hEk
      rw [remove, kind_setNode_self] at hE
      cases hE
    · rw [remove, kind_setNode_of_ne hEk, kind_setSlot] at hE
      exact ⟨hEk,hE⟩
  refine ⟨fun E hE => ?_,fun l hl' hr => ?_,hb.upward hs h.upward⟩
  · obtain ⟨hEk,hkind⟩ := hdir E hE
    by_cases hED : E = D
    · subst hED
      have hsucc := subdirs_succ hb.lo (hs.dir E i _ hb.bound).2 (not_leadsDown_remove hb) ((leadsDown_bound hb.bound).mpr hk)
        (fun j hj hne => (leadsDown_remove hb hs hEk hj (fun hc => hne hc.2)).symm)
      have := h.count E hkind
      omega
    · rw [hl E hEk hED, h.count E hkind, subdirs_congr (fun j hj => leadsDown_remove hb hs hEk hj (fun hc => hED hc.1))]
  · obtain ⟨hlk,hl'⟩ := hdir l hl'
    exact (h.held l hl' hr).remove hb.bound hb.empty hlk

omit hs

/-- The slot of a file is emptied. -/
theorem clearFile (hi : 2 ≤ i) (hb : t.slot D i = some (x,k)) (hk : t.kind k = some .file) :
    Linked S (t.setSlot D i none) links := by
  refine h.same rfl (fun _ _ => rfl) (fun E _ j _ => ?_) (fun l hl hh => hh.setSlot (fun y hs => ?_)) (h.upward.clear hi)
  · by_cases hj : E = D ∧ j = i
    · obtain ⟨rfl,rfl⟩ := hj
      have hold : ¬t.LeadsDown E j := fun hd => by cases hk.symm.trans ((leadsDown_bound hb).mp hd)
      exact ⟨fun hd => absurd hd not_leadsDown_clear,fun hd => absurd hd hold⟩
    · exact leadsDown_setSlot hj
  · cases hb.symm.trans hs
    cases hk.symm.trans hl

/-- A file moves anywhere. -/
theorem moveFile (hm : Movable S t D i x k E j) (hk : t.kind k = some .file) : Linked S (t.move D i E j x' k) links := by
  have hclear := h.clearFile hm.lo hm.bound hk
  have hempty : ∀ y l, (t.setSlot D i none).slot E j ≠ some (y,l) := fun y l hb => by
    rcases slot_setSlot_eq_some hb with ⟨_,_,ho⟩ | ⟨hne,hb⟩
    · cases ho
    · rcases hm.empty with he | he
      · exact hne he
      · rw [he] at hb
        cases hb
  refine hclear.same rfl (fun _ _ => rfl) (fun A _ l _ => ?_) (fun l _ hh => hh.setSlot (fun y => hempty y l))
    (hm.upward h.upward (fun hd => by cases hk.symm.trans hd))
  by_cases hl : A = E ∧ l = j
  · obtain ⟨rfl,rfl⟩ := hl
    refine ⟨fun hd => ?_,fun ⟨o,ho,_⟩ => absurd ho (hempty o.1 o.2)⟩
    have hd' : ((t.setSlot D i none).setSlot A l (some (x',k))).LeadsDown A l := hd
    have hdir := leadsDown_bind.mp hd'
    cases hk.symm.trans hdir
  · exact leadsDown_setSlot hl

/-- Any node gets a new name in its slot. -/
theorem rename (hm : Movable S t D i x k D i) : Linked S (t.move D i D i x' k) links := by
  have hmove : t.move D i D i x' k = t.setSlot D i (some (x',k)) := setSlot_setSlot
  refine h.same rfl (fun _ _ => rfl) (fun A _ l _ => ?_) (fun l _ hh => ?_) (hm.upward h.upward (fun _ => rfl))
  · rw [hmove]
    by_cases hl : A = D ∧ l = i
    · obtain ⟨rfl,rfl⟩ := hl
      rw [leadsDown_bind, leadsDown_bound hm.bound]
    · exact leadsDown_setSlot hl
  · rw [hmove]
    by_cases hlk : l = k
    · subst hlk
      exact ⟨D,i,x',hm.lo,slot_setSlot_self⟩
    · refine hh.setSlot (fun y hs => ?_)
      rw [hm.bound] at hs
      cases hs
      exact hlk rfl

end Linked

end SlotTree

end SimpleFS.Machine
