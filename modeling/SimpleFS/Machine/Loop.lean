import SimpleFS.Machine.Program
import Mathlib.Logic.Relation
import Mathlib.Order.Interval.Finset.Nat
import Mathlib.Tactic.Push

/-! # Loops

A loop follows a bounded number of rounds of its body; a round goes on with a new configuration or leaves
the loop. Whether the loop ends is a question about the rounds alone: from a configuration that does not end
no bound is enough.
-/
namespace SimpleFS.Machine.Prog
open Relation

variable {E S A C : Type}

/-- At most `n` rounds of `body`, each entered only where `exit` has no result. A round that returns an
error leaves the loop with it. -/
def whileLoop (exit : C → Option A) (body : C → Prog E S (Except A C)) : ℕ → C → Prog E S A
  | 0, c => lift (exit c)
  | n + 1, c =>
    match exit c with
    | some a => pure a
    | none => do
      match ← body c with
      | .error a => return a
      | .ok c' => whileLoop exit body n c'

/-- One round from the first configuration and state leads to the second. -/
def Round (exit : C → Option A) (body : C → Prog E S (Except A C)) (e : E) (p q : C × S) : Prop :=
  exit p.1 = none ∧ body p.1 e p.2 = some (.ok q.1,q.2)

/-- No infinite sequence of rounds. -/
def Ends (exit : C → Option A) (body : C → Prog E S (Except A C)) (e : E) (p : C × S) : Prop :=
  Acc (fun q p => Round exit body e p q) p

variable {exit : C → Option A} {body : C → Prog E S (Except A C)} {e : E} {p q : C × S}

/-- A measure that every round from the invariant decreases. -/
theorem Ends.of_measure {I : C × S → Prop} {μ : C × S → ℕ}
    (hround : ∀ p q, I p → Round exit body e p q → I q ∧ μ q < μ p) (hp : I p) : Ends exit body e p := by
  induction hn : μ p using Nat.strong_induction_on generalizing p with
  | _ n ih =>
    subst hn
    refine ⟨_,fun q hq => ?_⟩
    obtain ⟨hI,hlt⟩ := hround p q hp hq
    exact ih (μ q) hlt hI rfl

/-- An invariant from which there is always another round. -/
theorem not_ends {I : C × S → Prop} (hround : ∀ p, I p → ∃ q, Round exit body e p q ∧ I q) (hp : I p) :
    ¬Ends exit body e p := by
  intro h
  induction h with
  | intro p _ ih =>
    obtain ⟨q,hq,hI⟩ := hround p hp
    exact ih q hq hI

/-- The invariant holds wherever the loop gets. -/
theorem rounds_invariant {I : C × S → Prop} (hround : ∀ p q, I p → Round exit body e p q → I q) (hp : I p)
    (h : ReflTransGen (Round exit body e) p q) : I q := by
  induction h with
  | refl => exact hp
  | tail _ hq ih => exact hround _ _ ih hq

theorem whileLoop_exit {n : ℕ} {c : C} {a : A} (h : exit c = some a) : whileLoop exit body n c = pure a := by
  cases n with
  | zero =>
    rw [whileLoop, h]
    rfl
  | succ n => rw [whileLoop, h]

theorem whileLoop_round {n : ℕ} (h : Round exit body e p q) :
    whileLoop exit body (n + 1) p.1 e p.2 = whileLoop exit body n q.1 e q.2 := by
  rw [whileLoop, h.1]
  dsimp only
  rw [bind_apply, h.2]
  rfl

/-- From a configuration that does not end the loop has no result, whatever the bound. -/
theorem whileLoop_diverges (h : ¬Ends exit body e p) (n : ℕ) : whileLoop exit body n p.1 e p.2 = none := by
  induction n generalizing p with
  | zero =>
    cases hx : exit p.1 with
    | some a => exact absurd ⟨_,fun q hq => by cases hx.symm.trans hq.1⟩ h
    | none =>
      rw [whileLoop, hx]
      rfl
  | succ n ih =>
    -- some round leads to a configuration that does not end either
    obtain ⟨q,hq,hnot⟩ : ∃ q, Round exit body e p q ∧ ¬Ends exit body e q := by
      by_contra hc
      push Not at hc
      exact h ⟨_,hc⟩
    rw [whileLoop_round hq]
    exact ih hnot

/-! ## Rules -/

section Wp
variable {u : Prop} {n : ℕ} {c : C} {s : S} {Q : A → S → Prop}

theorem wp_whileLoop_exit {a : A} (h : exit c = some a) : wp u (whileLoop exit body n c) Q e s ↔ Q a s := by
  rw [whileLoop_exit h, wp_pure]

theorem wp_whileLoop_zero (h : exit c = none) : wp u (whileLoop exit body 0 c) Q e s ↔ u := by
  rw [whileLoop, h, wp_lift]
  simp

/-- One round and then the rest of the loop, or a round that leaves it. -/
theorem wp_whileLoop_round (h : exit c = none) : wp u (whileLoop exit body (n + 1) c) Q e s ↔
    wp u (body c) (fun r s' => (∀ a, r = .error a → Q a s') ∧
      ∀ c', r = .ok c' → wp u (whileLoop exit body n c') Q e s') e s := by
  have hpost : ∀ (r : Except A C) s', wp u (match r with
      | .error a => (pure a : Prog E S A)
      | .ok c' => whileLoop exit body n c') Q e s' ↔
      (∀ a, r = .error a → Q a s') ∧ ∀ c', r = .ok c' → wp u (whileLoop exit body n c') Q e s' := by
    rintro (a | c') s' <;> simp
  rw [whileLoop, h]
  dsimp only
  rw [wp_bind]
  exact ⟨fun hw => hw.mono (fun r s' => (hpost r s').mp),fun hw => hw.mono (fun r s' => (hpost r s').mpr)⟩

end Wp

end SimpleFS.Machine.Prog
