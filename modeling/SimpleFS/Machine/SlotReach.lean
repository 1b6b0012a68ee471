import SimpleFS.Machine.SlotTreeOps

/-! # Paths from the root

A node is reached from the root through the names of bindings behind the reserved slots, last name first.
In a sound tree a node has one path only, so a path does not pass through its own end.
-/
namespace SimpleFS.Machine

namespace SlotTree
variable {ι ν : Type}

inductive Reach (S : Shape ι ν) (t : SlotTree ι ν) : List ν → ι → Prop
  | root : Reach S t [] S.root
  | step {ps : List ν} {D k : ι} {i : ℕ} {x : ν} (h : Reach S t ps D) (hi : 2 ≤ i) (hs : t.slot D i = some (x,k)) :
      Reach S t (x :: ps) k

variable {S : Shape ι ν} {t : SlotTree ι ν} {D E k l : ι} {i j : ℕ} {x y : ν} {ps qs : List ν}

namespace Reach

theorem live (h : Sound S t) (hr : Reach S t ps k) : t.kind k ≠ none := by
  cases hr with
  | root =>
    rw [h.root]
    exact Option.some_ne_none _
  | step _ hi hs => exact (h.target _ _ _ _ hi hs).1

theorem path_unique (h : Sound S t) (hp : Reach S t ps k) (hq : Reach S t qs k) : ps = qs := by
  induction hp generalizing qs with
  | root =>
    cases hq with
    | root => rfl
    | step _ hi hs => exact absurd rfl (h.target _ _ _ _ hi hs).2
  | step _ hi hs ih =>
    cases hq with
    | root => exact absurd rfl (h.target _ _ _ _ hi hs).2
    | step hq hj hs' =>
      obtain ⟨rfl,rfl⟩ := h.once _ _ _ _ _ _ _ hi hj hs hs'
      rw [hs] at hs'
      cases hs'
      rw [ih hq]

theorem node_unique (hu : Unique t) (hp : Reach S t ps k) (hq : Reach S t ps l) : k = l := by
  induction hp generalizing l with
  | root =>
    cases hq
    rfl
  | step _ _ hs ih =>
    cases hq with
    | step hq _ hs' =>
      obtain rfl := ih hq
      obtain rfl := hu _ _ _ _ _ _ hs hs'
      rw [hs] at hs'
      cases hs'
      rfl

theorem of_append (hp : Reach S t (qs ++ ps) k) : ∃ D, Reach S t ps D := by
  induction qs generalizing k with
  | nil => exact ⟨k,hp⟩
  | cons q qs ih =>
    cases hp with
    | step h _ _ => exact ih h

end Reach

/-- Moving a binding of `D` leaves the path to `D` as it was. -/
theorem Movable.reach [DecidableEq ι] {x' : ν} (hm : Movable S t D i x k E j) (h : Sound S t) (hr : Reach S t ps D) :
    Reach S (t.move D i E j x' k) ps D := by
  -- every node on the way is reached by a shorter path, so none of the bindings used is the one that moves
  have hway : ∀ {qs l}, Reach S t qs l → qs.length ≤ ps.length → Reach S (t.move D i E j x' k) qs l := by
    intro qs l hq
    induction hq with
    | root => exact fun _ => .root
    | @step qs A B i' y hq hi hs ih =>
      intro hlen
      rw [List.length_cons] at hlen
      have hne : ¬(A = D ∧ i' = i) := by
        rintro ⟨rfl,rfl⟩
        have := congrArg List.length (hq.path_unique h hr)
        omega
      refine .step (ih (by omega)) hi ?_
      rw [move, slot_setSlot_of_ne, slot_setSlot_of_ne (by tauto), hs]
      by_contra he
      push Not at he
      obtain ⟨rfl,rfl⟩ := he
      rcases hm.empty with he | he
      · exact hne he
      · rw [he] at hs
        cases hs
  exact hway hr le_rfl

end SlotTree

end SimpleFS.Machine
