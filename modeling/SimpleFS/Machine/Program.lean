import Mathlib.Logic.Basic

/-! # Programs with undefined behaviour

A program reads an environment, transforms a state and may have no result at all: `none` stands for a
run that has left the behaviour the language defines (a null pointer, an access outside a buffer) or
that is not followed to its end. The precondition transformer takes what to think of such a run as an
argument, so one set of rules serves both readings: `True` makes it the weakest liberal precondition,
`False` the total one.
-/
namespace SimpleFS.Machine

def Prog (E S α : Type) : Type := E → S → Option (α × S)

namespace Prog
variable {E S α β : Type}

instance : Monad (Prog E S) where
  pure a := fun _ s => some (a,s)
  bind x f := fun e s => (x e s).bind (fun p => f p.1 e p.2)

/-- No defined behaviour from here on. -/
def undefined : Prog E S α := fun _ _ => none

/-- The environment. -/
def env : Prog E S E := fun e s => some (e,s)

/-- The current state. -/
def state : Prog E S S := fun _ s => some (s,s)

def modify (f : S → S) : Prog E S Unit := fun _ s => some ((),f s)

/-- A pure result that may be undefined. -/
def lift (o : Option α) : Prog E S α := fun _ s => o.map (fun a => (a,s))

variable (e : E) (s : S)

@[simp] theorem pure_apply (a : α) : (pure a : Prog E S α) e s = some (a,s) := rfl

@[simp] theorem bind_apply (x : Prog E S α) (f : α → Prog E S β) :
    (x >>= f) e s = (x e s).bind (fun p => f p.1 e p.2) := rfl

@[simp] theorem undefined_apply : (undefined : Prog E S α) e s = none := rfl
@[simp] theorem env_apply : (env : Prog E S E) e s = some (e,s) := rfl
@[simp] theorem state_apply : (state : Prog E S S) e s = some (s,s) := rfl
@[simp] theorem modify_apply (f : S → S) : (modify f : Prog E S Unit) e s = some ((),f s) := rfl
@[simp] theorem lift_some (a : α) : (lift (some a) : Prog E S α) e s = some (a,s) := rfl
@[simp] theorem lift_none : (lift none : Prog E S α) e s = none := rfl

@[simp] theorem ite_apply (c : Prop) [Decidable c] (x y : Prog E S α) :
    (if c then x else y) e s = if c then x e s else y e s := by split <;> rfl

/-- A sequence that ends has ended in both parts. -/
theorem exists_of_bind {x : Prog E S α} {f : α → Prog E S β} {e : E} {s : S} {r : β × S} (h : (x >>= f) e s = some r) :
    ∃ a s', x e s = some (a,s') ∧ f a e s' = some r := by
  rw [bind_apply] at h
  obtain ⟨⟨a,s'⟩,hx,hf⟩ := Option.bind_eq_some_iff.mp h
  exact ⟨a,s',hx,hf⟩

/-- `wp u x Q e s`: the run of `x` from `s` ends in a result with `Q`, or is undefined and `u`. -/
@[irreducible] def wp (u : Prop) (x : Prog E S α) (Q : α → S → Prop) (e : E) (s : S) : Prop :=
  match x e s with
  | none => u
  | some (a,s') => Q a s'

variable {e s} {u : Prop} {Q Q' : α → S → Prop} {x : Prog E S α}

theorem wp_true : wp True x Q e s ↔ ∀ a s', x e s = some (a,s') → Q a s' := by
  unfold wp
  cases h : x e s with
  | none => simp
  | some p =>
    obtain ⟨b,t⟩ := p
    simp

theorem wp_false : wp False x Q e s ↔ ∃ a s', x e s = some (a,s') ∧ Q a s' := by
  unfold wp
  cases h : x e s with
  | none => simp
  | some p =>
    obtain ⟨b,t⟩ := p
    simp [and_assoc]

/-- What a liberal precondition says of a run that has ended. -/
theorem wp.elim (h : wp True x Q e s) {a : α} {s' : S} (hx : x e s = some (a,s')) : Q a s' :=
  wp_true.mp h a s' hx

theorem wp_of_eq {a : α} {s' : S} (hx : x e s = some (a,s')) : wp u x Q e s ↔ Q a s' := by
  unfold wp
  rw [hx]

theorem wp.mono (h : wp u x Q e s) (hQ : ∀ a s', Q a s' → Q' a s') : wp u x Q' e s := by
  unfold wp at h ⊢
  cases hx : x e s with
  | none => simpa only [hx] using h
  | some p => exact hQ _ _ (by simpa only [hx] using h)

theorem wp.and (h : wp u x Q e s) (h' : wp u x Q' e s) : wp u x (fun a s' => Q a s' ∧ Q' a s') e s := by
  unfold wp at h h' ⊢
  cases hx : x e s with
  | none => simpa only [hx] using h
  | some p => exact ⟨by simpa only [hx] using h,by simpa only [hx] using h'⟩

/-- What holds if the program returns needs no second look at whether it does. -/
theorem wp.also (h : wp u x Q e s) (h' : wp True x Q' e s) : wp u x (fun a s' => Q a s' ∧ Q' a s') e s := by
  unfold wp at h h' ⊢
  cases hx : x e s with
  | none => simpa only [hx] using h
  | some p => exact ⟨by simpa only [hx] using h,by simpa only [hx] using h'⟩

@[simp] theorem wp_pure (a : α) : wp u (pure a : Prog E S α) Q e s ↔ Q a s := by
  unfold wp
  rfl

@[simp] theorem wp_bind (f : α → Prog E S β) {R : β → S → Prop} :
    wp u (x >>= f) R e s ↔ wp u x (fun a s' => wp u (f a) R e s') e s := by
  unfold wp
  rw [bind_apply]
  cases x e s <;> rfl

/-- Whatever the first part does. -/
theorem wp_bind_any {f : α → Prog E S β} {R : β → S → Prop} (h : ∀ a s', wp True (f a) R e s') : wp True (x >>= f) R e s :=
  (wp_bind f).mpr (wp_true.mpr (fun a s' _ => h a s'))

@[simp] theorem wp_undefined : wp u (undefined : Prog E S α) Q e s ↔ u := by
  unfold wp
  rfl
@[simp] theorem wp_env {Q : E → S → Prop} : wp u env Q e s ↔ Q e s := by
  unfold wp
  rfl
@[simp] theorem wp_state {Q : S → S → Prop} : wp u state Q e s ↔ Q s s := by
  unfold wp
  rfl
@[simp] theorem wp_modify (f : S → S) {Q : Unit → S → Prop} : wp u (modify f) Q e s ↔ Q () (f s) := by
  unfold wp
  rfl

theorem wp_lift {o : Option α} : wp u (lift o : Prog E S α) Q e s ↔ (o = none → u) ∧ ∀ a, o = some a → Q a s := by
  unfold wp
  cases o <;> simp

theorem wp_ite (c : Prop) [Decidable c] (x y : Prog E S α) :
    wp u (if c then x else y) Q e s ↔ (c → wp u x Q e s) ∧ (¬c → wp u y Q e s) := by
  split
  · next h => simp [h]
  · next h => simp [h]

end Prog

end SimpleFS.Machine
