import SimpleFS.Machine.Program
import Mathlib.Data.Option.Basic

/-! # Programs that only look

Such a program computes its result from a view of the state and leaves the view as it was. The part of
the state outside the view, a clock for instance, may move.
-/
namespace SimpleFS.Machine.Prog

variable {E S V α β : Type} {view : S → V} {e : E} {s : S}

/-- From every state `x` returns what `r` makes of the view, and keeps the view. -/
def Observes (view : S → V) (e : E) (x : Prog E S α) (r : V → Option α) : Prop :=
  ∀ s, (x e s).map (fun p => (p.1,view p.2)) = (r (view s)).map (fun a => (a,view s))

namespace Observes
variable {x : Prog E S α} {r r' : V → Option α}

theorem congr (h : Observes view e x r) (hr : ∀ v, r v = r' v) : Observes view e x r' := fun s => hr (view s) ▸ h s

theorem pure (a : α) : Observes view e (Pure.pure a) (fun _ => some a) := fun _ => rfl

theorem undefined : Observes view e (undefined : Prog E S α) (fun _ => none) := fun _ => rfl

theorem lift (o : Option α) : Observes view e (lift o) (fun _ => o) := by
  intro s
  cases o with
  | none => rfl
  | some a => rfl

/-- The second program sees the view the first one saw, and a result that the first one can have. -/
theorem bind {f : α → Prog E S β} {g : α → V → Option β} (hx : Observes view e x r)
    (hf : ∀ v a, r v = some a → Observes view e (f a) (g a)) : Observes view e (x >>= f) (fun v => (r v).bind (fun a => g a v)) := by
  intro s
  have h := hx s
  cases hxs : x e s with
  | none =>
    rw [hxs, Option.map_none] at h
    have hr : r (view s) = none := Option.map_eq_none_iff.mp h.symm
    simp [hxs,hr]
  | some p =>
    rw [hxs, Option.map_some] at h
    obtain ⟨a,ha,hp⟩ := Option.map_eq_some_iff.mp h.symm
    obtain ⟨rfl,hview⟩ := Prod.mk.inj hp
    have hrest := hf _ _ ha p.2
    rw [← hview] at hrest
    simpa [hxs,ha] using hrest

theorem ite (c : Prop) [Decidable c] {y : Prog E S α} {q : V → Option α} (hx : c → Observes view e x r)
    (hy : ¬c → Observes view e y q) : Observes view e (if c then x else y) (fun v => if c then r v else q v) := by
  by_cases hc : c
  · simpa only [if_pos hc] using hx hc
  · simpa only [if_neg hc] using hy hc

/-- A run that ends shows the value of the view. -/
theorem result (h : Observes view e x r) {a : α} {s' : S} (hx : x e s = some (a,s')) :
    r (view s) = some a ∧ view s' = view s := by
  have hs := h s
  rw [hx, Option.map_some] at hs
  obtain ⟨b,hb,hp⟩ := Option.map_eq_some_iff.mp hs.symm
  obtain ⟨rfl,hview⟩ := Prod.mk.inj hp
  exact ⟨hb,hview.symm⟩

/-- A value of the view is the result of a run. -/
theorem run (h : Observes view e x r) {v : V} {a : α} (hv : view s = v) (hr : r v = some a) :
    ∃ s', x e s = some (a,s') ∧ view s' = v := by
  subst hv
  have hs := h s
  rw [hr, Option.map_some] at hs
  obtain ⟨p,hp,heq⟩ := Option.map_eq_some_iff.mp hs
  obtain ⟨rfl,hview⟩ := Prod.mk.inj heq
  exact ⟨p.2,hp,hview⟩

end Observes

end SimpleFS.Machine.Prog
