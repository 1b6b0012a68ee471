import SimpleFS.Machine.SlotTree

/-! # Adding, removing and moving nodes of a slotted tree

The three changes a file system makes to its tree, what each needs of the slot it is given, and what it
keeps: soundness, distinct names, held nodes and parent slots. Each is also described by the bindings it
leaves, which is all a lookup can see.
-/
namespace SimpleFS.Machine

namespace SlotTree
variable {ι ν : Type} [DecidableEq ι]
variable {S : Shape ι ν} {t : SlotTree ι ν} {D E k l : ι} {i j : ℕ} {x y : ν}

/-! ## The tree of a root -/

/-- Nothing but an empty root, which is its own parent. -/
def rootTree (S : Shape ι ν) : SlotTree ι ν where
  kind := Function.update (fun _ => none) S.root (some .dir)
  slot := Function.update (fun _ _ => none) S.root (freshDir S S.root S.root)

theorem rootTree_slot (h : (rootTree S).slot D i = some (x,k)) : D = S.root ∧ freshDir S S.root S.root i = some (x,k) := by
  by_cases hD : D = S.root
  · subst hD
    exact ⟨rfl,by simpa [rootTree] using h⟩
  · simp [rootTree, hD] at h

theorem rootTree_kind : (rootTree S).kind D = some .dir ↔ D = S.root := by
  unfold rootTree
  by_cases hD : D = S.root
  · subst hD
    simp
  · simp [hD]

omit [DecidableEq ι] in
theorem freshDir_lt {p : ι} (hs : freshDir S D p i = some (x,k)) : i < 2 := by
  by_contra hi
  obtain ⟨n,rfl⟩ : ∃ n, i = n + 2 := ⟨i - 2,by omega⟩
  cases hs

theorem rootTree_sound (hcap : 2 ≤ S.cap) : Sound S (rootTree S) := by
  have hself : ∀ i, (rootTree S).slot S.root i = freshDir S S.root S.root i := by simp [rootTree]
  refine ⟨rootTree_kind.mpr rfl,fun D i o hs => ?_,fun D hD => ?_,fun D hD => ?_,fun D i x k hi hs => ?_,
    fun D i E j x y k hi _ hs _ => ?_⟩
  · obtain ⟨hD,hf⟩ := rootTree_slot hs
    exact ⟨rootTree_kind.mpr hD,(freshDir_lt hf).trans_le hcap⟩
  · rw [rootTree_kind.mp hD]
    exact hself 0
  · rw [rootTree_kind.mp hD]
    exact ⟨S.root,hself 1⟩
  · have := freshDir_lt (rootTree_slot hs).2
    omega
  · have := freshDir_lt (rootTree_slot hs).2
    omega

theorem rootTree_unique (hdot : S.dot ≠ S.dotdot) : Unique (rootTree S) :=
  fun _ _ _ _ _ _ hs hs' => freshDir_unique hdot _ _ _ _ _ (rootTree_slot hs).2 (rootTree_slot hs').2

theorem rootTree_held : Held S (rootTree S) := by
  intro k hk hr
  simp [rootTree, hr] at hk

theorem rootTree_upward : Upward S (rootTree S) := by
  refine ⟨by simp [rootTree, freshDir],fun D i x k hi hs _ => ?_⟩
  have := freshDir_lt (rootTree_slot hs).2
  omega

/-! ## Adding a node -/

/-- A number without a node and an empty slot of a directory for it. -/
structure Vacant (S : Shape ι ν) (t : SlotTree ι ν) (k D : ι) (i : ℕ) : Prop where
  new : t.kind k = none
  dir : t.kind D = some .dir
  lo : 2 ≤ i
  hi : i < S.cap
  empty : t.slot D i = none

/-- The node a creation adds, before it is bound. -/
def newNode (S : Shape ι ν) (t : SlotTree ι ν) (c : Kind) (k p : ι) : SlotTree ι ν :=
  match c with
  | .file => t.setNode k (some .file) (fun _ => none)
  | .dir => t.setNode k (some .dir) (freshDir S k p)

/-- A new node, bound to a slot of the directory that is its parent. -/
def add (S : Shape ι ν) (t : SlotTree ι ν) (c : Kind) (k D : ι) (i : ℕ) (x : ν) : SlotTree ι ν :=
  (newNode S t c k D).setSlot D i (some (x,k))

section Add
variable {c : Kind} {p : ι}

theorem kind_newNode : (newNode S t c k p).kind = Function.update t.kind k (some c) := by
  cases c <;> rfl

theorem slot_newNode_of_ne (hE : E ≠ k) : (newNode S t c k p).slot E = t.slot E := by
  cases c <;> exact slot_setNode_of_ne hE

/-- A new directory has its two reserved slots, a new file none. -/
theorem slot_newNode_self (hi : 2 ≤ i) : (newNode S t c k p).slot k i = none := by
  obtain ⟨n,rfl⟩ : ∃ n, i = n + 2 := ⟨i - 2,by omega⟩
  cases c <;> exact congrFun slot_setNode_self _

theorem Sound.newNode (h : Sound S t) (hk : t.kind k = none) (hcap : 2 ≤ S.cap) : Sound S (newNode S t c k p) := by
  cases c with
  | file => exact h.node hk hcap (.inr ⟨rfl,rfl⟩)
  | dir => exact h.node hk hcap (.inl ⟨rfl,p,rfl⟩)

theorem Every.newNode {P : ν → ι → Prop} (h : Every P t) (hdot : P S.dot k) (hup : P S.dotdot p) :
    Every P (newNode S t c k p) := by
  cases c with
  | file => exact h.setNode (fun _ _ _ hs => by cases hs)
  | dir =>
    refine h.setNode (fun i x l hs => ?_)
    match i with
    | 0 =>
      cases hs
      exact hdot
    | 1 =>
      cases hs
      exact hup

theorem Every.add {P : ν → ι → Prop} (h : Every P t) (hdot : P S.dot k) (hup : P S.dotdot D) (hx : P x k) :
    Every P (add S t c k D i x) :=
  (h.newNode hdot hup).setSlot (fun _ _ ho => by
    cases ho
    exact hx)

theorem Unique.newNode (hdot : S.dot ≠ S.dotdot) (h : Unique t) : Unique (newNode S t c k p) := by
  cases c with
  | file => exact h.node (fun _ _ _ _ _ hs => by cases hs)
  | dir => exact h.node (freshDir_unique hdot)

omit [DecidableEq ι] in
theorem Sound.not_bound (h : Sound S t) (hk : t.kind k = none) (hj : 2 ≤ j) : t.slot E j ≠ some (y,k) :=
  fun hs => (h.target E j y k hj hs).1 hk

omit [DecidableEq ι] in
theorem Sound.ne_root (h : Sound S t) (hk : t.kind k = none) : k ≠ S.root := by
  rintro rfl
  rw [h.root] at hk
  cases hk

namespace Vacant
variable (hv : Vacant S t k D i)
include hv

omit [DecidableEq ι] in
theorem ne : D ≠ k := by
  rintro rfl
  have := hv.new
  rw [hv.dir] at this
  cases this

omit [DecidableEq ι] in
theorem two_le_cap : 2 ≤ S.cap := hv.lo.trans hv.hi.le

theorem sound (h : Sound S t) : Sound S (add S t c k D i x) := by
  refine (h.newNode hv.new hv.two_le_cap).bind ?_ hv.lo hv.hi ?_ (h.ne_root hv.new) ?_
  · rw [kind_newNode, Function.update_of_ne hv.ne]
    exact hv.dir
  · rw [kind_newNode, Function.update_self]
    exact Option.some_ne_none c
  · intro E j y hj hs
    by_cases hE : E = k
    · subst hE
      rw [slot_newNode_self hj] at hs
      cases hs
    · rw [slot_newNode_of_ne hE] at hs
      exact absurd hs (h.not_bound hv.new hj)

theorem unique (hdot : S.dot ≠ S.dotdot) (h : Unique t) (hx : ∀ l, ¬t.Binds D x l) : Unique (add S t c k D i x) := by
  refine (h.newNode hdot).bind (fun j l hs => ?_)
  rw [slot_newNode_of_ne hv.ne] at hs
  exact absurd ⟨j,hs⟩ (hx l)

theorem held (hs : Sound S t) (h : Held S t) : Held S (add S t c k D i x) := by
  intro l hl hr
  by_cases hlk : l = k
  · subst hlk
    exact ⟨D,i,x,hv.lo,slot_setSlot_self⟩
  · rw [add, kind_setSlot, kind_newNode, Function.update_of_ne hlk] at hl
    obtain ⟨E,j,y,hj,hb⟩ := h l hl hr
    have hEk : E ≠ k := by
      rintro rfl
      have hd := (hs.dir E j _ hb).1
      rw [hv.new] at hd
      cases hd
    refine ⟨E,j,y,hj,?_⟩
    rw [add, slot_setSlot_of_ne, slot_newNode_of_ne hEk, hb]
    by_contra he
    push Not at he
    obtain ⟨rfl,rfl⟩ := he
    rw [hv.empty] at hb
    cases hb

theorem upward (hs : Sound S t) (h : Upward S t) : Upward S (add S t c k D i x) := by
  have hnone : ∀ E j y, 2 ≤ j → t.slot E j ≠ some (y,k) := fun E j y hj => hs.not_bound hv.new hj
  refine Upward.bind ?_ hv.lo (fun hk => ?_)
  · cases c with
    | file => exact h.node (hs.ne_root hv.new) hnone (.inr rfl)
    | dir => exact h.node (hs.ne_root hv.new) hnone (.inl ⟨D,rfl⟩)
  · rw [kind_newNode, Function.update_self] at hk
    cases hk
    exact congrFun slot_setNode_self 1

theorem binds : (add S t c k D i x).Binds E y l ↔
    (E = D ∧ y = x ∧ l = k) ∨ (E ≠ k ∧ t.Binds E y l) ∨
      (E = k ∧ c = .dir ∧ ((y = S.dot ∧ l = k) ∨ (y = S.dotdot ∧ l = D))) := by
  constructor
  · rintro ⟨j,hs⟩
    rcases slot_setSlot_eq_some hs with ⟨rfl,rfl,ho⟩ | ⟨_,hs⟩
    · cases ho
      exact .inl ⟨rfl,rfl,rfl⟩
    · by_cases hE : E = k
      · subst hE
        refine .inr (.inr ⟨rfl,?_⟩)
        match j with
        | j + 2 =>
          rw [slot_newNode_self (by omega)] at hs
          cases hs
        | 0 => cases c with
          | file => simp [newNode, slot_setNode_self] at hs
          | dir =>
            simp only [newNode, slot_setNode_self, freshDir, Option.some.injEq, Prod.mk.injEq] at hs
            exact ⟨rfl,.inl ⟨hs.1.symm,hs.2.symm⟩⟩
        | 1 => cases c with
          | file => simp [newNode, slot_setNode_self] at hs
          | dir =>
            simp only [newNode, slot_setNode_self, freshDir, Option.some.injEq, Prod.mk.injEq] at hs
            exact ⟨rfl,.inr ⟨hs.1.symm,hs.2.symm⟩⟩
      · rw [slot_newNode_of_ne hE] at hs
        exact .inr (.inl ⟨hE,j,hs⟩)
  · rintro (⟨rfl,rfl,rfl⟩ | ⟨hE,j,hs⟩ | ⟨rfl,rfl,hl⟩)
    · exact ⟨i,slot_setSlot_self⟩
    · refine ⟨j,?_⟩
      rw [add, slot_setSlot_of_ne, slot_newNode_of_ne hE, hs]
      by_contra he
      push Not at he
      obtain ⟨rfl,rfl⟩ := he
      rw [hv.empty] at hs
      cases hs
    · have hslot : ∀ j, (add S t .dir E D i x).slot E j = freshDir S E D j := by
        intro j
        rw [add, slot_setSlot_of_ne (.inl hv.ne.symm)]
        exact congrFun slot_setNode_self j
      rcases hl with ⟨rfl,rfl⟩ | ⟨rfl,rfl⟩
      · exact ⟨0,hslot 0⟩
      · exact ⟨1,hslot 1⟩

end Vacant

end Add

/-! ## Removing a node -/

def remove (t : SlotTree ι ν) (k D : ι) (i : ℕ) : SlotTree ι ν :=
  (t.setSlot D i none).setNode k none (fun _ => none)

/-- Removing a node right after it was added leaves the tree as it was. -/
theorem Vacant.remove_add {c : Kind} (hv : Vacant S t k D i) (h : Sound S t) : (add S t c k D i x).remove k D i = t := by
  have hkind : ((add S t c k D i x).remove k D i).kind = t.kind := by
    unfold remove setNode
    rw [kind_setSlot, add, kind_setSlot, kind_newNode, Function.update_idem, ← hv.new, Function.update_eq_self]
  have hslot : ((add S t c k D i x).remove k D i).slot = t.slot := by
    funext E
    by_cases hE : E = k
    · subst hE
      unfold remove
      rw [slot_setNode_self]
      funext j
      exact (h.slot_of_not_dir (by rw [hv.new]; exact (Option.some_ne_none _).symm)).symm
    · unfold remove
      rw [slot_setNode_of_ne hE]
      funext j
      rw [add, setSlot_setSlot]
      by_cases hj : E = D ∧ j = i
      · obtain ⟨rfl,rfl⟩ := hj
        rw [slot_setSlot_self, hv.empty]
      · rw [slot_setSlot_of_ne (by tauto), slot_newNode_of_ne hE]
  generalize (add S t c k D i x).remove k D i = t' at hkind hslot
  cases t
  cases t'
  simp only at hkind hslot
  rw [hkind, hslot]

/-- Removing a node without entries, the other nodes stay bound. -/
theorem IsHeld.remove (hE : t.IsHeld l) (hb : t.slot D i = some (x,k)) (hempty : ∀ j, 2 ≤ j → t.slot k j = none) (hlk : l ≠ k) :
    (t.remove k D i).IsHeld l := by
  obtain ⟨E,j,y,hj,hs⟩ := hE
  have hEk : E ≠ k := by
    rintro rfl
    rw [hempty j hj] at hs
    cases hs
  refine ⟨E,j,y,hj,?_⟩
  have hne : E ≠ D ∨ j ≠ i := by
    by_contra hn
    push Not at hn
    obtain ⟨rfl,rfl⟩ := hn
    rw [hb] at hs
    cases hs
    exact hlk rfl
  rw [SlotTree.remove, slot_setNode_of_ne hEk, slot_setSlot_of_ne hne, hs]

theorem Every.remove {P : ν → ι → Prop} (h : Every P t) : Every P (t.remove k D i) :=
  Every.setNode (h.setSlot (fun _ _ ho => by cases ho)) (fun _ _ _ hs => by cases hs)

theorem rootTree_every {P : ν → ι → Prop} (hdot : P S.dot S.root) (hup : P S.dotdot S.root) : Every P (rootTree S) := by
  intro D i x k hs
  obtain ⟨_,hf⟩ := rootTree_slot hs
  match i with
  | 0 =>
    cases hf
    exact hdot
  | 1 =>
    cases hf
    exact hup

/-- The slot that binds a node with no bindings of its own behind the reserved slots. -/
structure Leaf (t : SlotTree ι ν) (k D : ι) (i : ℕ) (x : ν) : Prop where
  lo : 2 ≤ i
  bound : t.slot D i = some (x,k)
  empty : ∀ j, 2 ≤ j → t.slot k j = none

namespace Leaf
variable (hl : Leaf t k D i x)
include hl

omit [DecidableEq ι] in
theorem ne : D ≠ k := by
  rintro rfl
  have := hl.bound
  rw [hl.empty i hl.lo] at this
  cases this

/-- Behind the reserved slots nothing else binds the node. -/
theorem unbound (h : Sound S t) (hj : 2 ≤ j) : (t.setSlot D i none).slot E j ≠ some (y,k) := by
  intro hs
  rcases slot_setSlot_eq_some hs with ⟨_,_,ho⟩ | ⟨hne,hs⟩
  · cases ho
  · exact hne (h.once E j D i y x k hj hl.lo hs hl.bound)

theorem sound (h : Sound S t) : Sound S (t.remove k D i) :=
  (h.clear hl.lo).erase (h.target D i x k hl.lo hl.bound).2 (fun _ _ _ hj hs => absurd hs (hl.unbound h hj))

omit hl in
theorem unique (h : Unique t) : Unique (t.remove k D i) := h.clear.node (fun _ _ _ _ _ hs => by cases hs)

theorem held (h : Held S t) : Held S (t.remove k D i) := by
  intro l hk hr
  have hlk : l ≠ k := by
    rintro rfl
    rw [remove, kind_setNode_self] at hk
    exact hk rfl
  rw [remove, kind_setNode_of_ne hlk, kind_setSlot] at hk
  obtain ⟨E,j,y,hj,hs⟩ := h l hk hr
  have hEk : E ≠ k := by
    rintro rfl
    rw [hl.empty j hj] at hs
    cases hs
  refine ⟨E,j,y,hj,?_⟩
  rw [remove, slot_setNode_of_ne hEk, slot_setSlot_of_ne, hs]
  by_contra he
  push Not at he
  obtain ⟨rfl,rfl⟩ := he
  rw [hl.bound] at hs
  cases hs
  exact hlk rfl

theorem upward (hs : Sound S t) (h : Upward S t) : Upward S (t.remove k D i) :=
  (h.clear hl.lo).erase (hs.target D i x k hl.lo hl.bound).2 (fun _ _ _ hj => hl.unbound hs hj)

theorem binds (hu : Unique t) : (t.remove k D i).Binds E y l ↔ E ≠ k ∧ ¬(E = D ∧ y = x) ∧ t.Binds E y l := by
  constructor
  · rintro ⟨j,hs⟩
    have hEk : E ≠ k := by
      rintro rfl
      rw [remove, slot_setNode_self] at hs
      cases hs
    rw [remove, slot_setNode_of_ne hEk] at hs
    rcases slot_setSlot_eq_some hs with ⟨_,_,ho⟩ | ⟨hne,hb⟩
    · cases ho
    · refine ⟨hEk,?_,j,hb⟩
      rintro ⟨rfl,rfl⟩
      exact hne ⟨rfl,hu E j i y l k hb hl.bound⟩
  · rintro ⟨hEk,hne,j,hs⟩
    refine ⟨j,?_⟩
    rw [remove, slot_setNode_of_ne hEk, slot_setSlot_of_ne, hs]
    by_contra he
    push Not at he
    obtain ⟨rfl,rfl⟩ := he
    rw [hl.bound] at hs
    cases hs
    exact hne ⟨rfl,rfl⟩

end Leaf

/-! ## Moving a binding -/

/-- The binding of one slot goes to another one, under a name that may be new. -/
def move (t : SlotTree ι ν) (D : ι) (i : ℕ) (E : ι) (j : ℕ) (x : ν) (k : ι) : SlotTree ι ν :=
  (t.setSlot D i none).setSlot E j (some (x,k))

theorem Every.move {P : ν → ι → Prop} (h : Every P t) (hx : P x k) : Every P (t.move D i E j x k) :=
  (h.setSlot (fun _ _ ho => by cases ho)).setSlot (fun _ _ ho => by
    cases ho
    exact hx)

/-- A bound slot and the slot its binding goes to, which is the same one or empty. -/
structure Movable (S : Shape ι ν) (t : SlotTree ι ν) (D : ι) (i : ℕ) (x : ν) (k E : ι) (j : ℕ) : Prop where
  lo : 2 ≤ i
  bound : t.slot D i = some (x,k)
  dir : t.kind E = some .dir
  lo' : 2 ≤ j
  hi' : j < S.cap
  empty : (E = D ∧ j = i) ∨ t.slot E j = none

namespace Movable
variable {x' : ν} (hm : Movable S t D i x k E j)
include hm

theorem sound (h : Sound S t) : Sound S (t.move D i E j x' k) := by
  have ht := h.target D i x k hm.lo hm.bound
  refine (h.clear hm.lo).bind hm.dir hm.lo' hm.hi' ht.1 ht.2 (fun E' j' y hj hs => ?_)
  rcases slot_setSlot_eq_some hs with ⟨_,_,ho⟩ | ⟨hne,hs⟩
  · cases ho
  · exact absurd (h.once E' j' D i y x k hj hm.lo hs hm.bound) hne

omit hm in
theorem unique (h : Unique t) (hx : ∀ j' l, t.slot E j' = some (x',l) → E = D ∧ j' = i) :
    Unique (t.move D i E j x' k) := by
  refine h.clear.bind (fun j' l hs => ?_)
  rcases slot_setSlot_eq_some hs with ⟨_,_,ho⟩ | ⟨hne,hs⟩
  · cases ho
  · exact absurd (hx j' l hs) hne

theorem upward (h : Upward S t) (hk : t.kind k = some .dir → E = D) : Upward S (t.move D i E j x' k) := by
  refine (h.clear hm.lo).bind hm.lo' (fun hd => ?_)
  have hup := h.bound D i x k hm.lo hm.bound hd
  have := hm.lo
  rw [slot_setSlot_of_ne (by omega), hk hd]
  exact hup

theorem binds (hu : Unique t) {E' : ι} : (t.move D i E j x' k).Binds E' y l ↔
    (E' = E ∧ y = x' ∧ l = k) ∨ (¬(E' = D ∧ y = x) ∧ t.Binds E' y l) := by
  constructor
  · rintro ⟨j',hs⟩
    rcases slot_setSlot_eq_some hs with ⟨rfl,_,ho⟩ | ⟨_,hs⟩
    · cases ho
      exact .inl ⟨rfl,rfl,rfl⟩
    · rcases slot_setSlot_eq_some hs with ⟨_,_,ho⟩ | ⟨hne,hb⟩
      · cases ho
      · refine .inr ⟨?_,j',hb⟩
        rintro ⟨rfl,rfl⟩
        exact hne ⟨rfl,hu E' j' i y l k hb hm.bound⟩
  · rintro (⟨rfl,rfl,rfl⟩ | ⟨hne,j',hs⟩)
    · exact ⟨j,slot_setSlot_self⟩
    · have hne' : ¬(E' = D ∧ j' = i) := by
        rintro ⟨rfl,rfl⟩
        rw [hm.bound] at hs
        cases hs
        exact hne ⟨rfl,rfl⟩
      refine ⟨j',?_⟩
      rw [move, slot_setSlot_of_ne, slot_setSlot_of_ne (by tauto), hs]
      by_contra he
      push Not at he
      obtain ⟨rfl,rfl⟩ := he
      rcases hm.empty with he | he
      · exact hne' he
      · rw [he] at hs
        cases hs

end Movable

end SlotTree

end SimpleFS.Machine
