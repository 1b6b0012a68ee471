import SimpleFS.Machine.Program
import Mathlib.Logic.Relation

/-! # Runs of calls

A run is a sequence of calls of a system. Each call has its own environment, and a predicate says which
calls count: it sees the state before the call, the request and the result.
-/
namespace SimpleFS.Machine

variable {E S R α : Type} {run : R → Prog E S α} {P : E → S → R → α → Prop} {I : S → Prop} {s s' : S}

/-- `s'` is the state after one call from `s` that counts. -/
def Follows (run : R → Prog E S α) (P : E → S → R → α → Prop) (s s' : S) : Prop :=
  ∃ e q a, P e s q a ∧ run q e s = some (a,s')

/-- `s'` is the state after some calls from `s`, all of which count. -/
def Reached (run : R → Prog E S α) (P : E → S → R → α → Prop) : S → S → Prop := Relation.ReflTransGen (Follows run P)

theorem Reached.refl : Reached run P s s := Relation.ReflTransGen.refl

theorem Reached.call {t : S} {e : E} {q : R} {a : α} (h : Reached run P s t) (hP : P e t q a)
    (hq : run q e t = some (a,s')) : Reached run P s s' := Relation.ReflTransGen.tail h ⟨e,q,a,hP,hq⟩

/-- What every call that counts keeps, a run keeps. -/
theorem Reached.invariant (h : Reached run P s s') (h0 : I s)
    (hstep : ∀ e s q a s', I s → P e s q a → run q e s = some (a,s') → I s') : I s' := by
  induction h with
  | refl => exact h0
  | tail _ hf ih =>
    obtain ⟨e,q,a,hP,hq⟩ := hf
    exact hstep e _ q a _ ih hP hq

/-- Runs with more calls. -/
theorem Reached.mono {P' : E → S → R → α → Prop} (hP : ∀ e s q a, P e s q a → P' e s q a) (h : Reached run P s s') :
    Reached run P' s s' := by
  induction h with
  | refl => exact Reached.refl
  | tail _ hf ih =>
    obtain ⟨e,q,a,hp,hq⟩ := hf
    exact ih.call (hP e _ q a hp) hq

end SimpleFS.Machine
