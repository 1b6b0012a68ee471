import SimpleFS.Machine.SlotReach
import Mathlib.Data.List.Infix

/-! # Name spaces

What a tree is for: a map from paths to labels of nodes. A path has its last name first. Adding a node, removing
one and labelling one anew change the map at one path, moving one at two paths and everything below them.
-/
namespace SimpleFS.Machine

/-- What each path leads to. -/
abbrev Namespace (ν α : Type) := List ν → Option α

namespace Namespace
variable {ν α : Type} {n : Namespace ν α} {p q : List ν}

/-- Nothing but the root. -/
def bare (a : α) : Namespace ν α
  | [] => some a
  | _ :: _ => none

/-- Nothing lies below. -/
def Childless (n : Namespace ν α) (p : List ν) : Prop := ∀ x, n (x :: p) = none

/-- Everything on the way is labelled `a`. -/
def Through (n : Namespace ν α) (a : α) (p : List ν) : Prop := ∀ q, q <:+ p → ∀ b, n q = some b → b = a

variable [DecidableEq ν]

/-- What lay at `p` and below it lies at `q`. -/
def move (n : Namespace ν α) (p q : List ν) : Namespace ν α := fun r =>
  if q <:+ r then n (r.take (r.length - q.length) ++ p) else if p <:+ r then none else n r

theorem move_inside {r : List ν} : n.move p q (r ++ q) = n (r ++ p) := by
  unfold move
  rw [if_pos (List.suffix_append r q), List.length_append, Nat.add_sub_cancel, List.take_left]

theorem move_gone {r : List ν} (hq : ¬q <:+ r) (hp : p <:+ r) : n.move p q r = none := by
  unfold move
  rw [if_neg hq, if_pos hp]

theorem move_outside {r : List ν} (hq : ¬q <:+ r) (hp : ¬p <:+ r) : n.move p q r = n r := by
  unfold move
  rw [if_neg hq, if_neg hp]

end Namespace

namespace SlotTree
variable {ι ν α : Type} {S : Shape ι ν} {t t' : SlotTree ι ν} {D E k l : ι} {i j : ℕ} {x y : ν} {p q r : List ν}
  {f g : ι → Option α} {a : α} {c : Kind}

/-! ## The map of a tree -/

open Classical in
/-- The labels at the ends of the paths. -/
noncomputable def names (S : Shape ι ν) (t : SlotTree ι ν) (f : ι → Option α) : Namespace ν α := fun p =>
  if h : ∃ k, Reach S t p k then f h.choose else none

/-- Every node is at the end of a path. -/
def Grounded (S : Shape ι ν) (t : SlotTree ι ν) : Prop := ∀ k, t.kind k ≠ none → ∃ p, Reach S t p k

/-- Every node has a label. -/
def Labelled (t : SlotTree ι ν) (f : ι → Option α) : Prop := ∀ k, t.kind k ≠ none → f k ≠ none

theorem names_of_reach (hu : Unique t) (h : Reach S t p k) : names S t f p = f k := by
  have hex : ∃ l, Reach S t p l := ⟨k,h⟩
  unfold names
  rw [dif_pos hex, hex.choose_spec.node_unique hu h]

theorem names_of_no_reach (h : ∀ l, ¬Reach S t p l) : names S t f p = none := by
  unfold names
  exact dif_neg (fun ⟨k,hk⟩ => h k hk)

theorem names_eq_none (h : Sound S t) (hu : Unique t) (hf : Labelled t f) : names S t f p = none ↔ ∀ k, ¬Reach S t p k :=
  ⟨fun hn _ hk => hf _ (hk.live h) ((names_of_reach hu hk).symm.trans hn),names_of_no_reach⟩

theorem names_eq_some (hu : Unique t) : names S t f p = some a ↔ ∃ k, Reach S t p k ∧ f k = some a := by
  constructor
  · intro hc
    by_cases hex : ∃ k, Reach S t p k
    · obtain ⟨k,hk⟩ := hex
      exact ⟨k,hk,(names_of_reach hu hk).symm.trans hc⟩
    · rw [names_of_no_reach (fun l hl => hex ⟨l,hl⟩)] at hc
      cases hc
  · rintro ⟨k,hk,hc⟩
    rw [names_of_reach hu hk, hc]

/-- Two paths to the same nodes. -/
theorem names_congr (hu : Unique t) (hu' : Unique t') (h : ∀ l, Reach S t' q l ↔ Reach S t p l)
    (hf : ∀ l, Reach S t p l → g l = f l) : names S t' g q = names S t f p := by
  by_cases hex : ∃ l, Reach S t p l
  · obtain ⟨l,hl⟩ := hex
    rw [names_of_reach hu' ((h l).mpr hl), names_of_reach hu hl, hf l hl]
  · rw [names_of_no_reach (fun l hl => hex ⟨l,hl⟩), names_of_no_reach (fun l hl => hex ⟨l,(h l).mp hl⟩)]

/-- Below a path that leads nowhere there is nothing. -/
theorem names_below (h : Sound S t) (hu : Unique t) (hf : Labelled t f) (hn : names S t f p = none) :
    names S t f (x :: p) = none := by
  refine names_of_no_reach (fun l hl => ?_)
  cases hl with
  | step hD _ _ => exact (names_eq_none h hu hf).mp hn _ hD

/-- One node gets another label. -/
theorem names_label [DecidableEq ν] (h : Sound S t) (hu : Unique t) (hk : Reach S t p k) (hf : ∀ l, l ≠ k → g l = f l) :
    names S t g = Function.update (names S t f) p (g k) := by
  funext q
  by_cases hq : q = p
  · subst hq
    rw [Function.update_self, names_of_reach hu hk]
  · rw [Function.update_of_ne hq]
    refine names_congr hu hu (fun _ => Iff.rfl) (fun l hl => hf l ?_)
    rintro rfl
    exact hq (hl.path_unique h hk)

theorem reach_cons (hu : Unique t) (hD : Reach S t p D) : Reach S t (x :: p) k ↔ ∃ i, 2 ≤ i ∧ t.slot D i = some (x,k) := by
  constructor
  · intro h
    cases h with
    | @step _ A _ i _ hA hi hs =>
      obtain rfl := hA.node_unique hu hD
      exact ⟨i,hi,hs⟩
  · rintro ⟨i,hi,hs⟩
    exact .step hD hi hs

section Changes
variable [DecidableEq ι] (h : Sound S t)
include h

/-! ## Adding a node -/

theorem reach_add (hv : Vacant S t k D i) (hD : Reach S t p D) :
    Reach S (add S t c k D i x) q l ↔ Reach S t q l ∨ q = x :: p ∧ l = k := by
  have hkeep : ∀ {q l}, Reach S t q l → Reach S (add S t c k D i x) q l := by
    intro q l hq
    induction hq with
    | root => exact .root
    | @step q A l j y hA hj hs ih =>
      have hAk : A ≠ k := by
        rintro rfl
        exact hA.live h hv.new
      refine .step ih hj ?_
      rw [add, slot_setSlot_of_ne, slot_newNode_of_ne hAk, hs]
      by_contra he
      push Not at he
      obtain ⟨rfl,rfl⟩ := he
      cases hv.empty.symm.trans hs
  constructor
  · intro hq
    induction hq with
    | root => exact .inl .root
    | @step q A l j y hA hj hs ih =>
      rcases slot_setSlot_eq_some hs with ⟨rfl,rfl,ho⟩ | ⟨_,hs⟩
      · cases ho
        rcases ih with ih | ⟨_,hn⟩
        · exact .inr ⟨by rw [ih.path_unique h hD],rfl⟩
        · exact absurd hn hv.ne
      · -- the new node has no slots behind the reserved ones
        have hAk : A ≠ k := by
          rintro rfl
          rw [slot_newNode_self hj] at hs
          cases hs
        rw [slot_newNode_of_ne hAk] at hs
        exact .inl (.step (ih.resolve_right (fun hn => hAk hn.2)) hj hs)
  · rintro (hq | ⟨rfl,rfl⟩)
    · exact hkeep hq
    · exact .step (hkeep hD) hv.lo slot_setSlot_self

theorem Grounded.add (hg : Grounded S t) (hv : Vacant S t k D i) : Grounded S (add S t c k D i x) := by
  obtain ⟨p,hD⟩ := hg D (by rw [hv.dir]; exact Option.some_ne_none _)
  intro l hl
  by_cases hlk : l = k
  · exact ⟨x :: p,(reach_add h hv hD).mpr (.inr ⟨rfl,hlk⟩)⟩
  · rw [SlotTree.add, kind_setSlot, kind_newNode, Function.update_of_ne hlk] at hl
    obtain ⟨q,hq⟩ := hg l hl
    exact ⟨q,(reach_add h hv hD).mpr (.inl hq)⟩

/-- One path more. -/
theorem names_add [DecidableEq ν] (hu : Unique t) (hdot : S.dot ≠ S.dotdot) (hv : Vacant S t k D i) (hD : Reach S t p D)
    (hx : ∀ l, ¬t.Binds D x l) (hf : ∀ l, l ≠ k → g l = f l) :
    names S (add S t c k D i x) g = Function.update (names S t f) (x :: p) (g k) := by
  have hu' : Unique (add S t c k D i x) := hv.unique hdot hu hx
  funext q
  by_cases hq : q = x :: p
  · subst hq
    rw [Function.update_self, names_of_reach hu' ((reach_add h hv hD).mpr (.inr ⟨rfl,rfl⟩))]
  · rw [Function.update_of_ne hq]
    refine names_congr hu hu' (fun l => (reach_add h hv hD).trans (or_iff_left (fun hn => hq hn.1))) (fun l hl => hf l ?_)
    rintro rfl
    exact hl.live h hv.new

/-! ## Removing a node -/

theorem reach_remove (hu : Unique t) (hl : Leaf t k D i x) (hD : Reach S t p D) :
    Reach S (t.remove k D i) q l ↔ Reach S t q l ∧ q ≠ x :: p := by
  constructor
  · intro hq
    induction hq with
    | root => exact ⟨.root,fun hn => by cases hn⟩
    | @step q A l j y hA hj hs ih =>
      have hAk : A ≠ k := by
        rintro rfl
        rw [remove, slot_setNode_self] at hs
        cases hs
      rw [remove, slot_setNode_of_ne hAk] at hs
      rcases slot_setSlot_eq_some hs with ⟨_,_,ho⟩ | ⟨hne,hold⟩
      · cases ho
      · refine ⟨.step ih.1 hj hold,fun hn => ?_⟩
        obtain ⟨rfl,rfl⟩ := List.cons.inj hn
        obtain rfl := ih.1.node_unique hu hD
        exact hne ⟨rfl,hu _ _ _ _ _ _ hold hl.bound⟩
  · rintro ⟨hq,hne⟩
    induction hq with
    | root => exact .root
    | @step q A l j y hA hj hs ih =>
      have hAk : A ≠ k := by
        rintro rfl
        rw [hl.empty j hj] at hs
        cases hs
      refine .step (ih (fun hn => ?_)) hj ?_
      · subst hn
        exact hAk (hA.node_unique hu (.step hD hl.lo hl.bound))
      · rw [remove, slot_setNode_of_ne hAk, slot_setSlot_of_ne, hs]
        by_contra he
        push Not at he
        obtain ⟨rfl,rfl⟩ := he
        cases hs.symm.trans hl.bound
        exact hne (by rw [hA.path_unique h hD])

theorem Grounded.remove (hg : Grounded S t) (hu : Unique t) (hl : Leaf t k D i x) : Grounded S (t.remove k D i) := by
  obtain ⟨p,hD⟩ := hg D (by rw [(h.dir D i _ hl.bound).1]; exact Option.some_ne_none _)
  intro l hkind
  have hlk : l ≠ k := by
    rintro rfl
    rw [SlotTree.remove, kind_setNode_self] at hkind
    exact hkind rfl
  rw [SlotTree.remove, kind_setNode_of_ne hlk, kind_setSlot] at hkind
  obtain ⟨q,hq⟩ := hg l hkind
  refine ⟨q,(reach_remove h hu hl hD).mpr ⟨hq,?_⟩⟩
  rintro rfl
  exact hlk (hq.node_unique hu (.step hD hl.lo hl.bound))

/-- One path less. -/
theorem names_remove [DecidableEq ν] (hu : Unique t) (hl : Leaf t k D i x) (hD : Reach S t p D)
    (hf : ∀ l, l ≠ k → g l = f l) : names S (t.remove k D i) g = Function.update (names S t f) (x :: p) none := by
  have hu' : Unique (t.remove k D i) := Leaf.unique hu
  funext q
  by_cases hq : q = x :: p
  · subst hq
    rw [Function.update_self]
    exact names_of_no_reach (fun l hr => ((reach_remove h hu hl hD).mp hr).2 rfl)
  · rw [Function.update_of_ne hq]
    refine names_congr hu hu' (fun l => (reach_remove h hu hl hD).trans (and_iff_left hq)) (fun l hr => hf l ?_)
    rintro rfl
    exact hq (hr.path_unique h (.step hD hl.lo hl.bound))

omit [DecidableEq ι] in
/-- Nothing lies below a node without slots. -/
theorem names_childless (hu : Unique t) (hf : Labelled t f) (hk : Reach S t p k) :
    (names S t f).Childless p ↔ ∀ j, 2 ≤ j → t.slot k j = none := by
  constructor
  · intro hn j hj
    by_contra hs
    obtain ⟨⟨x,l⟩,hs⟩ := Option.ne_none_iff_exists'.mp hs
    exact (names_eq_none h hu hf).mp (hn x) l (.step hk hj hs)
  · intro hs x
    refine names_of_no_reach (fun l hl => ?_)
    obtain ⟨j,hj,hb⟩ := (reach_cons hu hk).mp hl
    rw [hs j hj] at hb
    cases hb

/-! ## Moving a node -/

section Move
variable (hu : Unique t) (hm : Movable S t D i x k E j) (hD : Reach S t p D) (hE : Reach S t q E) (hout : ¬x :: p <:+ q)
include hu hm hD hE hout

omit hu hout in
/-- A path that does not pass through the binding is left. -/
theorem reach_move_outside (hr : ¬x :: p <:+ r) (hl : Reach S t r l) : Reach S (t.move D i E j y k) r l := by
  induction hl with
  | root => exact .root
  | @step r A l a z hA ha hs ih =>
    refine .step (ih (fun hn => hr (hn.trans (List.suffix_cons z r)))) ha ?_
    have hne : ¬(A = D ∧ a = i) := by
      rintro ⟨rfl,rfl⟩
      cases hs.symm.trans hm.bound
      exact hr (by rw [hA.path_unique h hD])
    rw [move, slot_setSlot_of_ne, slot_setSlot_of_ne (by tauto), hs]
    by_contra he
    push Not at he
    obtain ⟨rfl,rfl⟩ := he
    rcases hm.empty with he | he
    · exact hne he
    · cases he.symm.trans hs

/-- Below the binding the names go on as before. -/
theorem reach_move_inside (hl : Reach S t (r ++ x :: p) l) : Reach S (t.move D i E j y k) (r ++ y :: q) l := by
  induction r generalizing l with
  | nil =>
    obtain ⟨a,_,ha⟩ := (reach_cons hu hD).mp hl
    obtain rfl := hu _ _ _ _ _ _ ha hm.bound
    cases ha.symm.trans hm.bound
    exact .step (reach_move_outside h hm hD hE hout hE) hm.lo' slot_setSlot_self
  | cons z r ih =>
    cases hl with
    | @step _ A l a _ hA ha hs =>
      refine .step (ih hA) ha ?_
      have hne : ¬(A = D ∧ a = i) := by
        rintro ⟨rfl,rfl⟩
        have := congrArg List.length (hA.path_unique h hD)
        simp at this
        omega
      rw [move, slot_setSlot_of_ne, slot_setSlot_of_ne (by tauto), hs]
      by_contra he
      push Not at he
      obtain ⟨rfl,rfl⟩ := he
      rcases hm.empty with he | he
      · exact hne he
      · cases he.symm.trans hs

theorem Grounded.move (hg : Grounded S t) : Grounded S (t.move D i E j y k) := by
  intro l hl
  rw [SlotTree.move, kind_setSlot, kind_setSlot] at hl
  obtain ⟨r,hr⟩ := hg l hl
  by_cases hx : x :: p <:+ r
  · obtain ⟨b,rfl⟩ := hx
    exact ⟨b ++ y :: q,reach_move_inside h hu hm hD hE hout hr⟩
  · exact ⟨r,reach_move_outside h hm hD hE hx hr⟩

theorem of_reach_move (hl : Reach S (t.move D i E j y k) r l) :
    (∃ b, r = b ++ y :: q ∧ Reach S t (b ++ x :: p) l) ∨ ¬x :: p <:+ r ∧ Reach S t r l := by
  induction hl with
  | root => exact .inr ⟨by simp,.root⟩
  | @step r A l a z hA ha hs ih =>
    rcases slot_setSlot_eq_some hs with ⟨rfl,rfl,ho⟩ | ⟨_,hs⟩
    · cases ho
      refine .inl ⟨[],?_,.step hD hm.lo hm.bound⟩
      rcases ih with ⟨b,rfl,hb⟩ | ⟨_,hb⟩
      · exact absurd (hE.path_unique h hb ▸ List.suffix_append b (x :: p)) hout
      · rw [hb.path_unique h hE, List.nil_append]
    · rcases slot_setSlot_eq_some hs with ⟨_,_,ho⟩ | ⟨hne,hold⟩
      · cases ho
      · rcases ih with ⟨b,rfl,hb⟩ | ⟨hr,hb⟩
        · exact .inl ⟨z :: b,rfl,.step hb ha hold⟩
        · refine .inr ⟨fun hn => ?_,.step hb ha hold⟩
          rcases List.suffix_cons_iff.mp hn with heq | hn
          · obtain ⟨rfl,rfl⟩ := List.cons.inj heq
            obtain rfl := hb.node_unique hu hD
            exact hne ⟨rfl,hu _ _ _ _ _ _ hold hm.bound⟩
          · exact hr hn

/-- A path and what lies below it, elsewhere. -/
theorem names_move [DecidableEq ν] (hy : ∀ l, ¬t.Binds E y l) (hf : ∀ l, g l = f l) :
    names S (t.move D i E j y k) g = (names S t f).move (x :: p) (y :: q) := by
  have hu' : Unique (t.move D i E j y k) := Movable.unique hu (fun j' l hs => absurd ⟨j',hs⟩ (hy l))
  have hfree : ∀ {b l}, ¬Reach S t (b ++ y :: q) l := fun {b l} hr => by
    obtain ⟨A,hA⟩ := hr.of_append
    obtain ⟨a,_,ha⟩ := (reach_cons hu hE).mp hA
    exact hy A ⟨a,ha⟩
  funext r
  by_cases hr : y :: q <:+ r
  · obtain ⟨b,rfl⟩ := hr
    rw [Namespace.move_inside]
    refine names_congr hu hu' (fun l => ⟨fun hl => ?_,reach_move_inside h hu hm hD hE hout⟩) (fun l _ => hf l)
    rcases of_reach_move h hu hm hD hE hout hl with ⟨b',hb,hl⟩ | ⟨_,hl⟩
    · rwa [List.append_cancel_right hb]
    · exact absurd hl hfree
  · have hno : ∀ {l}, Reach S (t.move D i E j y k) r l → ¬x :: p <:+ r ∧ Reach S t r l := fun hl => by
      rcases of_reach_move h hu hm hD hE hout hl with ⟨b,rfl,_⟩ | hl
      · exact absurd (List.suffix_append b (y :: q)) hr
      · exact hl
    by_cases hx : x :: p <:+ r
    · rw [Namespace.move_gone hr hx]
      exact names_of_no_reach (fun l hl => (hno hl).1 hx)
    · rw [Namespace.move_outside hr hx]
      exact names_congr hu hu' (fun l => ⟨fun hl => (hno hl).2,reach_move_outside h hm hD hE hx⟩)
        (fun l _ => hf l)

end Move

end Changes

theorem rootTree_grounded [DecidableEq ι] : Grounded S (rootTree S) := by
  intro k hk
  by_cases hr : k = S.root
  · subst hr
    exact ⟨[],.root⟩
  · exact absurd (by simp [rootTree, hr]) hk

theorem names_rootTree [DecidableEq ι] (hf : f S.root = some a) : names S (rootTree S) f = Namespace.bare a := by
  funext p
  cases p with
  | nil =>
    have hroot : ∀ k, Reach S (rootTree S) [] k → k = S.root := fun k hk => by cases hk; rfl
    have hex : ∃ k, Reach S (rootTree S) [] k := ⟨S.root,.root⟩
    unfold names
    rw [dif_pos hex, hroot _ hex.choose_spec]
    exact hf
  | cons x p =>
    refine names_of_no_reach (fun k hk => ?_)
    cases hk with
    | step _ hi hs =>
      have := freshDir_lt (rootTree_slot hs).2
      omega

end SlotTree

end SimpleFS.Machine
