import Mathlib.Logic.Function.Basic
import Mathlib.Order.Interval.Finset.Nat

/-! # Trees of slotted directories

A node is absent, a file or a directory, and a directory has numbered slots that bind a name to a node.
The first two slots of a directory are reserved for itself and for its parent. The changes below write
one slot, together with the node they add or remove; soundness says that every other binding leads to a
node that exists, from one place only.
-/
namespace SimpleFS.Machine

inductive Kind
  | file
  | dir
deriving DecidableEq

structure SlotTree (ι ν : Type) where
  kind : ι → Option Kind
  slot : ι → ℕ → Option (ν × ι)

/-- What the layout fixes: the number of slots, the root and the two reserved names. -/
structure SlotTree.Shape (ι ν : Type) where
  cap : ℕ
  root : ι
  dot : ν
  dotdot : ν

namespace SlotTree
variable {ι ν : Type} [DecidableEq ι]

def Binds (t : SlotTree ι ν) (D : ι) (x : ν) (k : ι) : Prop := ∃ i, t.slot D i = some (x,k)

/-! ## Changes -/

def setSlot (t : SlotTree ι ν) (D : ι) (i : ℕ) (o : Option (ν × ι)) : SlotTree ι ν where
  kind := t.kind
  slot E j := if E = D ∧ j = i then o else t.slot E j

/-- A node of the given kind with the given slots. -/
def setNode (t : SlotTree ι ν) (k : ι) (o : Option Kind) (f : ℕ → Option (ν × ι)) : SlotTree ι ν where
  kind := Function.update t.kind k o
  slot := Function.update t.slot k f

def freshDir (S : Shape ι ν) (k p : ι) : ℕ → Option (ν × ι)
  | 0 => some (S.dot,k)
  | 1 => some (S.dotdot,p)
  | _ => none

variable {S : Shape ι ν} {t : SlotTree ι ν} {D E k l : ι} {i j : ℕ} {x y : ν} {o : Option (ν × ι)}

theorem slot_setSlot_self : (t.setSlot D i o).slot D i = o := if_pos ⟨rfl,rfl⟩

theorem slot_setSlot_of_ne (h : E ≠ D ∨ j ≠ i) : (t.setSlot D i o).slot E j = t.slot E j :=
  if_neg (by rintro ⟨hE,hj⟩; exact h.elim (· hE) (· hj))

theorem setSlot_setSlot {o' : Option (ν × ι)} : (t.setSlot D i o).setSlot D i o' = t.setSlot D i o' := by
  unfold setSlot
  congr 1
  funext E j
  dsimp only
  split <;> rfl

/-- Writes to different slots commute. -/
theorem setSlot_comm {o' : Option (ν × ι)} (h : ¬(D = E ∧ i = j)) :
    (t.setSlot D i o).setSlot E j o' = (t.setSlot E j o').setSlot D i o := by
  unfold setSlot
  congr 1
  funext A l
  dsimp only
  by_cases ha : A = E ∧ l = j
  · have hb : ¬(A = D ∧ l = i) := fun hb => h ⟨hb.1.symm.trans ha.1,hb.2.symm.trans ha.2⟩
    rw [if_pos ha, if_neg hb, if_pos ha]
  · rw [if_neg ha, if_neg ha]

theorem kind_setSlot : (t.setSlot D i o).kind = t.kind := rfl

theorem kind_setNode_self {c : Option Kind} {f : ℕ → Option (ν × ι)} : (t.setNode k c f).kind k = c := by
  simp [setNode]

theorem kind_setNode_of_ne {c : Option Kind} {f : ℕ → Option (ν × ι)} (h : l ≠ k) : (t.setNode k c f).kind l = t.kind l := by
  simp [setNode, h]

theorem slot_setNode_self {c : Option Kind} {f : ℕ → Option (ν × ι)} : (t.setNode k c f).slot k = f := by
  simp [setNode]

theorem slot_setNode_of_ne {c : Option Kind} {f : ℕ → Option (ν × ι)} (h : l ≠ k) : (t.setNode k c f).slot l = t.slot l := by
  simp [setNode, h]

/-! ## Soundness -/

structure Sound (S : Shape ι ν) (t : SlotTree ι ν) : Prop where
  root : t.kind S.root = some .dir
  dir : ∀ D i o, t.slot D i = some o → t.kind D = some .dir ∧ i < S.cap
  self : ∀ D, t.kind D = some .dir → t.slot D 0 = some (S.dot,D)
  up : ∀ D, t.kind D = some .dir → ∃ p, t.slot D 1 = some (S.dotdot,p)
  target : ∀ D i x k, 2 ≤ i → t.slot D i = some (x,k) → t.kind k ≠ none ∧ k ≠ S.root
  once : ∀ D i E j x y k, 2 ≤ i → 2 ≤ j → t.slot D i = some (x,k) → t.slot E j = some (y,k) → D = E ∧ i = j

namespace Sound
variable (h : Sound S t)
include h

omit [DecidableEq ι] in
theorem slot_of_not_dir (hD : t.kind D ≠ some .dir) : t.slot D i = none := by
  cases hs : t.slot D i with
  | none => rfl
  | some o => exact absurd (h.dir D i o hs).1 hD

omit [DecidableEq ι] in
/-- The reserved slots of a directory are never empty. -/
theorem behind_reserved (hD : t.kind D = some .dir) (hs : t.slot D j = none) : 2 ≤ j := by
  by_contra hlt
  rcases (show j = 0 ∨ j = 1 by omega) with rfl | rfl
  · cases (h.self D hD).symm.trans hs
  · obtain ⟨p,hp⟩ := h.up D hD
    cases hp.symm.trans hs

/-- Emptying a slot behind the reserved ones. -/
theorem clear (hi : 2 ≤ i) : Sound S (t.setSlot D i none) := by
  have hslot : ∀ {E j o}, (t.setSlot D i none).slot E j = some o → t.slot E j = some o := by
    intro E j o hs
    by_cases he : E = D ∧ j = i
    · obtain ⟨rfl,rfl⟩ := he
      rw [slot_setSlot_self] at hs
      cases hs
    · rwa [slot_setSlot_of_ne (by tauto)] at hs
  refine ⟨h.root,fun E j o hs => h.dir E j o (hslot hs),fun E hE => ?_,fun E hE => ?_,fun E j x k hj hs => ?_,
    fun E j E' j' x y k hj hj' hs hs' => h.once E j E' j' x y k hj hj' (hslot hs) (hslot hs')⟩
  · rw [slot_setSlot_of_ne (by omega)]
    exact h.self E hE
  · rw [slot_setSlot_of_ne (by omega)]
    exact h.up E hE
  · exact h.target E j x k hj (hslot hs)

/-- Binding a slot behind the reserved ones to a node that nothing else binds. -/
theorem bind (hD : t.kind D = some .dir) (hi : 2 ≤ i) (hcap : i < S.cap) (hk : t.kind k ≠ none) (hroot : k ≠ S.root)
    (hnew : ∀ E j y, 2 ≤ j → t.slot E j = some (y,k) → E = D ∧ j = i) : Sound S (t.setSlot D i (some (x,k))) := by
  have hslot : ∀ {E j y l}, (t.setSlot D i (some (x,k))).slot E j = some (y,l) →
      (E = D ∧ j = i ∧ y = x ∧ l = k) ∨ (¬(E = D ∧ j = i) ∧ t.slot E j = some (y,l)) := by
    intro E j y l hs
    by_cases he : E = D ∧ j = i
    · obtain ⟨rfl,rfl⟩ := he
      rw [slot_setSlot_self] at hs
      cases hs
      exact .inl ⟨rfl,rfl,rfl,rfl⟩
    · rw [slot_setSlot_of_ne (by tauto)] at hs
      exact .inr ⟨he,hs⟩
  refine ⟨h.root,fun E j o hs => ?_,fun E hE => ?_,fun E hE => ?_,fun E j y l hj hs => ?_,
    fun E j E' j' y y' l hj hj' hs hs' => ?_⟩
  · rcases hslot hs with ⟨rfl,rfl,_⟩ | ⟨_,hs2⟩
    · exact ⟨hD,hcap⟩
    · exact h.dir E j _ hs2
  · rw [slot_setSlot_of_ne (by omega)]
    exact h.self E hE
  · rw [slot_setSlot_of_ne (by omega)]
    exact h.up E hE
  · rcases hslot hs with ⟨_,_,_,rfl⟩ | ⟨_,hs2⟩
    · exact ⟨hk,hroot⟩
    · exact h.target E j y l hj hs2
  · rcases hslot hs with ⟨rfl,rfl,_,rfl⟩ | ⟨hne,hs2⟩
    · rcases hslot hs' with ⟨rfl,rfl,_⟩ | ⟨hne',hs2'⟩
      · exact ⟨rfl,rfl⟩
      · exact absurd (hnew E' j' y' hj' hs2') hne'
    · rcases hslot hs' with ⟨rfl,rfl,_,rfl⟩ | ⟨_,hs2'⟩
      · exact absurd (hnew E j y hj hs2) hne
      · exact h.once E j E' j' y y' l hj hj' hs2 hs2'

/-- A new node, not bound anywhere yet, with the slots of an empty directory or none. -/
theorem node {c : Kind} {f : ℕ → Option (ν × ι)} (hk : t.kind k = none) (hcap : 2 ≤ S.cap)
    (hf : c = .dir ∧ (∃ p, f = freshDir S k p) ∨ c = .file ∧ f = fun _ => none) :
    Sound S (t.setNode k (some c) f) := by
  have hkr : k ≠ S.root := by
    rintro rfl
    rw [h.root] at hk
    cases hk
  have hslot : ∀ {E j y l}, 2 ≤ j → (t.setNode k (some c) f).slot E j = some (y,l) → t.slot E j = some (y,l) := by
    intro E j y l hj hs
    by_cases he : E = k
    · subst he
      rw [slot_setNode_self] at hs
      obtain ⟨n,rfl⟩ : ∃ n, j = n + 2 := ⟨j - 2,by omega⟩
      rcases hf with ⟨_,p,rfl⟩ | ⟨_,rfl⟩ <;> cases hs
    · rwa [slot_setNode_of_ne he] at hs
  refine ⟨by rw [kind_setNode_of_ne hkr.symm]; exact h.root,fun E j o hs => ?_,fun E hE => ?_,fun E hE => ?_,
    fun E j y l hj hs => ?_,fun E j E' j' y y' l hj hj' hs hs' => h.once E j E' j' y y' l hj hj' (hslot hj hs) (hslot hj' hs')⟩
  · by_cases he : E = k
    · subst he
      rw [slot_setNode_self] at hs
      rw [kind_setNode_self]
      rcases hf with ⟨rfl,p,rfl⟩ | ⟨_,rfl⟩
      · refine ⟨rfl,?_⟩
        by_contra hn
        obtain ⟨n,rfl⟩ : ∃ n, j = n + 2 := ⟨j - 2,by omega⟩
        cases hs
      · cases hs
    · rw [slot_setNode_of_ne he] at hs
      rw [kind_setNode_of_ne he]
      exact h.dir E j o hs
  · by_cases he : E = k
    · subst he
      rw [kind_setNode_self] at hE
      rw [slot_setNode_self]
      rcases hf with ⟨_,p,rfl⟩ | ⟨rfl,_⟩
      · rfl
      · cases hE
    · rw [kind_setNode_of_ne he] at hE
      rw [slot_setNode_of_ne he]
      exact h.self E hE
  · by_cases he : E = k
    · subst he
      rw [kind_setNode_self] at hE
      rw [slot_setNode_self]
      rcases hf with ⟨_,p,rfl⟩ | ⟨rfl,_⟩
      · exact ⟨p,rfl⟩
      · cases hE
    · rw [kind_setNode_of_ne he] at hE
      rw [slot_setNode_of_ne he]
      exact h.up E hE
  · obtain ⟨hl,hlr⟩ := h.target E j y l hj (hslot hj hs)
    refine ⟨?_,hlr⟩
    rw [kind_setNode_of_ne (by rintro rfl; exact hl hk)]
    exact hl

/-- A node goes away together with its slots, once no binding leads to it any more. -/
theorem erase (hkr : k ≠ S.root) (hnone : ∀ E j y, 2 ≤ j → t.slot E j = some (y,k) → E = k) :
    Sound S (t.setNode k none (fun _ => none)) := by
  have hslot : ∀ {E j y l}, (t.setNode k none (fun _ => none)).slot E j = some (y,l) → E ≠ k ∧ t.slot E j = some (y,l) := by
    intro E j y l hs
    by_cases he : E = k
    · subst he
      rw [slot_setNode_self] at hs
      cases hs
    · rw [slot_setNode_of_ne he] at hs
      exact ⟨he,hs⟩
  have hdir : ∀ {E}, (t.setNode k none (fun _ => none)).kind E = some .dir → E ≠ k ∧ t.kind E = some .dir := by
    intro E hE
    by_cases he : E = k
    · subst he
      rw [kind_setNode_self] at hE
      cases hE
    · rw [kind_setNode_of_ne he] at hE
      exact ⟨he,hE⟩
  refine ⟨by rw [kind_setNode_of_ne hkr.symm]; exact h.root,fun E j o hs => ?_,fun E hE => ?_,fun E hE => ?_,
    fun E j y l hj hs => ?_,
    fun E j E' j' y y' l hj hj' hs hs' => h.once E j E' j' y y' l hj hj' (hslot hs).2 (hslot hs').2⟩
  · obtain ⟨he,hs⟩ := hslot hs
    rw [kind_setNode_of_ne he]
    exact h.dir E j _ hs
  · obtain ⟨he,hE⟩ := hdir hE
    rw [slot_setNode_of_ne he]
    exact h.self E hE
  · obtain ⟨he,hE⟩ := hdir hE
    rw [slot_setNode_of_ne he]
    exact h.up E hE
  · obtain ⟨he,hs2⟩ := hslot hs
    obtain ⟨hl,hlr⟩ := h.target E j y l hj hs2
    have hlk : l ≠ k := by
      rintro rfl
      exact he (hnone E j y hj hs2)
    rw [kind_setNode_of_ne hlk]
    exact ⟨hl,hlr⟩

omit [DecidableEq ι] in
/-- More slots behind the reserved ones than nodes behind the root: one of them is empty. -/
theorem exists_empty (D : ι) (A : Finset ι) (hA : ∀ k, t.kind k ≠ none → k ≠ S.root → k ∈ A) (hcard : A.card + 2 < S.cap) :
    ∃ i, 2 ≤ i ∧ i < S.cap ∧ t.slot D i = none := by
  by_contra hfull
  push Not at hfull
  have hused : ∀ i ∈ Finset.Ico 2 S.cap, ∃ o, t.slot D i = some o := fun i hi =>
    Option.ne_none_iff_exists'.mp (hfull i (Finset.mem_Ico.mp hi).1 (Finset.mem_Ico.mp hi).2)
  have htarget : ∀ i ∈ Finset.Ico 2 S.cap, ((t.slot D i).map Prod.snd).getD S.root ∈ A := by
    intro i hi
    obtain ⟨⟨x,k⟩,ho⟩ := hused i hi
    obtain ⟨hk,hroot⟩ := h.target D i x k (Finset.mem_Ico.mp hi).1 ho
    rw [ho]
    exact hA k hk hroot
  obtain ⟨i,hi,j,hj,hij,heq⟩ := Finset.exists_ne_map_eq_of_card_lt_of_maps_to
    (by rw [Nat.card_Ico]; omega : A.card < (Finset.Ico 2 S.cap).card) htarget
  obtain ⟨⟨x,k⟩,hoi⟩ := hused i hi
  obtain ⟨⟨y,l⟩,hoj⟩ := hused j hj
  rw [hoi, hoj] at heq
  obtain rfl : k = l := heq
  exact hij (h.once D i D j x y k (Finset.mem_Ico.mp hi).1 (Finset.mem_Ico.mp hj).1 hoi hoj).2

end Sound

/-! ## Distinct names, held nodes, parents -/

/-- The names in one directory are different. -/
def Unique (t : SlotTree ι ν) : Prop := ∀ D i j x k l, t.slot D i = some (x,k) → t.slot D j = some (x,l) → i = j

/-- Every node but the root is bound behind the reserved slots. -/
def Held (S : Shape ι ν) (t : SlotTree ι ν) : Prop :=
  ∀ k, t.kind k ≠ none → k ≠ S.root → ∃ D i x, 2 ≤ i ∧ t.slot D i = some (x,k)

/-- The parent slot of a directory names the directory that binds it, and the one of the root the root. -/
structure Upward (S : Shape ι ν) (t : SlotTree ι ν) : Prop where
  root : t.slot S.root 1 = some (S.dotdot,S.root)
  bound : ∀ D i x k, 2 ≤ i → t.slot D i = some (x,k) → t.kind k = some .dir → t.slot k 1 = some (S.dotdot,D)

/-- Every slot binds what `P` allows. -/
def Every (P : ν → ι → Prop) (t : SlotTree ι ν) : Prop := ∀ D i x k, t.slot D i = some (x,k) → P x k

/-- Node `k` is bound behind the reserved slots. -/
def IsHeld (t : SlotTree ι ν) (k : ι) : Prop := ∃ D i x, 2 ≤ i ∧ t.slot D i = some (x,k)

omit [DecidableEq ι] in
/-- Whatever slot it is in, a bound node is there. -/
theorem Sound.bound (h : Sound S t) (hh : Held S t) (hu : Upward S t) (hs : t.slot D i = some (x,k)) : t.kind k ≠ none := by
  have hdir : ∀ E, t.kind E = some .dir → t.kind E ≠ none := fun E hE hn => by
    rw [hE] at hn
    cases hn
  have hD := (h.dir D i _ hs).1
  match i with
  | 0 =>
    obtain ⟨rfl,rfl⟩ := Prod.mk.inj (Option.some.inj ((h.self D hD).symm.trans hs))
    exact hdir _ hD
  | 1 =>
    by_cases hroot : D = S.root
    · subst hroot
      obtain ⟨rfl,rfl⟩ := Prod.mk.inj (Option.some.inj (hu.root.symm.trans hs))
      exact hdir _ hD
    · obtain ⟨E,j,y,hj,hE⟩ := hh D (hdir D hD) hroot
      obtain ⟨rfl,rfl⟩ := Prod.mk.inj (Option.some.inj ((hu.bound E j y D hj hE hD).symm.trans hs))
      exact hdir _ (h.dir E j _ hE).1
  | i + 2 => exact (h.target D (i + 2) x k (by omega) hs).1

section Ops
variable {f : ℕ → Option (ν × ι)} {c : Kind}

theorem slot_setSlot_eq_some {p : ν × ι} (hs : (t.setSlot D i o).slot E j = some p) :
    (E = D ∧ j = i ∧ o = some p) ∨ (¬(E = D ∧ j = i) ∧ t.slot E j = some p) := by
  by_cases he : E = D ∧ j = i
  · obtain ⟨rfl,rfl⟩ := he
    rw [slot_setSlot_self] at hs
    exact .inl ⟨rfl,rfl,hs⟩
  · rw [slot_setSlot_of_ne (by tauto)] at hs
    exact .inr ⟨he,hs⟩

theorem Every.setSlot {P : ν → ι → Prop} (h : Every P t) (ho : ∀ x k, o = some (x,k) → P x k) :
    Every P (t.setSlot D i o) := by
  intro E j y l hs
  rcases slot_setSlot_eq_some hs with ⟨_,_,hy⟩ | ⟨_,hs⟩
  · exact ho y l hy
  · exact h E j y l hs

theorem Every.setNode {P : ν → ι → Prop} {c : Option Kind} (h : Every P t) (hf : ∀ i x l, f i = some (x,l) → P x l) :
    Every P (t.setNode k c f) := by
  intro E j y l hs
  by_cases hE : E = k
  · subst hE
    rw [slot_setNode_self] at hs
    exact hf j y l hs
  · rw [slot_setNode_of_ne hE] at hs
    exact h E j y l hs

theorem Unique.bind (h : Unique t) (hx : ∀ j l, t.slot D j = some (x,l) → j = i) :
    Unique (t.setSlot D i (some (x,k))) := by
  intro E j j' y l l' hs hs'
  rcases slot_setSlot_eq_some hs with ⟨rfl,rfl,ho⟩ | ⟨_,hs2⟩
  · rcases slot_setSlot_eq_some hs' with ⟨_,rfl,_⟩ | ⟨_,hs2'⟩
    · rfl
    · cases ho
      exact (hx j' l' hs2').symm
  · rcases slot_setSlot_eq_some hs' with ⟨rfl,rfl,ho⟩ | ⟨_,hs2'⟩
    · cases ho
      exact hx j l hs2
    · exact h E j j' y l l' hs2 hs2'

theorem Unique.clear (h : Unique t) : Unique (t.setSlot D i none) := by
  intro E j j' y l l' hs hs'
  rcases slot_setSlot_eq_some hs with ⟨_,_,ho⟩ | ⟨_,hs⟩
  · cases ho
  · rcases slot_setSlot_eq_some hs' with ⟨_,_,ho⟩ | ⟨_,hs'⟩
    · cases ho
    · exact h E j j' y l l' hs hs'

theorem Unique.node {c : Option Kind} (h : Unique t) (hf : ∀ j j' y l l', f j = some (y,l) → f j' = some (y,l') → j = j') :
    Unique (t.setNode k c f) := by
  intro E j j' y l l' hs hs'
  by_cases he : E = k
  · subst he
    rw [slot_setNode_self] at hs hs'
    exact hf j j' y l l' hs hs'
  · rw [slot_setNode_of_ne he] at hs hs'
    exact h E j j' y l l' hs hs'

omit [DecidableEq ι] in
theorem freshDir_unique {p : ι} (hdot : S.dot ≠ S.dotdot) :
    ∀ j j' y l l', freshDir S k p j = some (y,l) → freshDir S k p j' = some (y,l') → j = j' := by
  intro j j' y l l' hs hs'
  match j,j' with
  | 0,0 => rfl
  | 0,1 =>
    simp only [freshDir, Option.some.injEq, Prod.mk.injEq] at hs hs'
    exact absurd (hs.1.trans hs'.1.symm) hdot
  | 1,0 =>
    simp only [freshDir, Option.some.injEq, Prod.mk.injEq] at hs hs'
    exact absurd (hs'.1.trans hs.1.symm) hdot
  | 1,1 => rfl
  | _ + 2,_ => cases hs
  | _,_ + 2 => cases hs'

theorem Held.bind (h : Held S t) (hD : t.slot D i = none) : Held S (t.setSlot D i (some (x,k))) := by
  intro l hl hr
  obtain ⟨E,j,y,hj,hs⟩ := h l hl hr
  refine ⟨E,j,y,hj,?_⟩
  rw [slot_setSlot_of_ne, hs]
  by_contra he
  push Not at he
  obtain ⟨rfl,rfl⟩ := he
  rw [hD] at hs
  cases hs

theorem Upward.bind (h : Upward S t) (hi : 2 ≤ i) (hk : t.kind k = some .dir → t.slot k 1 = some (S.dotdot,D)) :
    Upward S (t.setSlot D i (some (x,k))) := by
  refine ⟨?_,fun E j y l hj hs hl => ?_⟩
  · rw [slot_setSlot_of_ne (by omega)]
    exact h.root
  · rw [slot_setSlot_of_ne (by omega)]
    rcases slot_setSlot_eq_some hs with ⟨rfl,_,ho⟩ | ⟨_,hs⟩
    · cases ho
      exact hk hl
    · exact h.bound E j y l hj hs hl

theorem Upward.clear (h : Upward S t) (hi : 2 ≤ i) : Upward S (t.setSlot D i none) := by
  refine ⟨?_,fun E j y l hj hs hl => ?_⟩
  · rw [slot_setSlot_of_ne (by omega)]
    exact h.root
  · rw [slot_setSlot_of_ne (by omega)]
    rcases slot_setSlot_eq_some hs with ⟨_,_,ho⟩ | ⟨_,hs⟩
    · cases ho
    · exact h.bound E j y l hj hs hl

theorem Upward.node (h : Upward S t) (hkr : k ≠ S.root) (hnone : ∀ E j y, 2 ≤ j → t.slot E j ≠ some (y,k))
    (hf : (∃ p, f = freshDir S k p) ∨ f = fun _ => none) : Upward S (t.setNode k (some c) f) := by
  refine ⟨by rw [slot_setNode_of_ne hkr.symm]; exact h.root,fun E j y l hj hs hl => ?_⟩
  by_cases he : E = k
  · subst he
    rw [slot_setNode_self] at hs
    obtain ⟨n,rfl⟩ : ∃ n, j = n + 2 := ⟨j - 2,by omega⟩
    rcases hf with ⟨p,rfl⟩ | rfl <;> cases hs
  · rw [slot_setNode_of_ne he] at hs
    have hlk : l ≠ k := by
      rintro rfl
      exact hnone E j y hj hs
    rw [kind_setNode_of_ne hlk] at hl
    rw [slot_setNode_of_ne hlk]
    exact h.bound E j y l hj hs hl

theorem Upward.erase (h : Upward S t) (hkr : k ≠ S.root) (hnone : ∀ E j y, 2 ≤ j → t.slot E j ≠ some (y,k)) :
    Upward S (t.setNode k none (fun _ => none)) := by
  refine ⟨by rw [slot_setNode_of_ne hkr.symm]; exact h.root,fun E j y l hj hs hl => ?_⟩
  by_cases he : E = k
  · subst he
    rw [slot_setNode_self] at hs
    cases hs
  · rw [slot_setNode_of_ne he] at hs
    have hlk : l ≠ k := by
      rintro rfl
      exact hnone E j y hj hs
    rw [kind_setNode_of_ne hlk] at hl
    rw [slot_setNode_of_ne hlk]
    exact h.bound E j y l hj hs hl

end Ops

end SlotTree

end SimpleFS.Machine
