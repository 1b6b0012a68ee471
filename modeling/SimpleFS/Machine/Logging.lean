import SimpleFS.Machine.Program

/-! # Programs that log what they do

A run that has no result keeps the log of what happened up to there. Without its log such a program is a
program, and every part that logs nothing is given as one.
-/
namespace SimpleFS.Machine

def Logged (W E S α : Type) : Type := E → S → List W × Option (α × S)

namespace Logged
variable {W E S α β : Type}

instance : Monad (Logged W E S) where
  pure a := fun _ s => ([],some (a,s))
  bind x f := fun e s =>
    match (x e s).2 with
    | none => ((x e s).1,none)
    | some (a,s') => ((x e s).1 ++ (f a e s').1,(f a e s').2)

/-- One entry. -/
def tell (w : W) : Logged W E S Unit := fun _ s => ([w],some ((),s))

/-- A program that logs nothing. -/
def quiet (x : Prog E S α) : Logged W E S α := fun e s => ([],x e s)

/-- The program without its log. -/
def erase (x : Logged W E S α) : Prog E S α := fun e s => (x e s).2

def log (x : Logged W E S α) (e : E) (s : S) : List W := (x e s).1

variable {x y : Logged W E S α} {f : α → Logged W E S β} {e : E} {s : S} {w : W}

theorem bind_apply : (x >>= f) e s = match (x e s).2 with
    | none => ((x e s).1,none)
    | some (a,s') => ((x e s).1 ++ (f a e s').1,(f a e s').2) := rfl

/-! ## Without the log -/

theorem erase_bind : (x >>= f).erase = x.erase >>= fun a => (f a).erase := by
  funext e s
  change ((x >>= f) e s).2 = (x e s).2.bind (fun p => (f p.1 e p.2).2)
  rw [bind_apply]
  cases (x e s).2 <;> rfl

theorem erase_bind_of {x' : Prog E S α} {f' : α → Prog E S β} (hx : x.erase = x') (hf : ∀ a, (f a).erase = f' a) :
    (x >>= f).erase = x' >>= f' := by
  rw [erase_bind, hx]
  exact congrArg _ (funext hf)

theorem erase_tell {g : Unit → Logged W E S β} : (tell w >>= g).erase = (g ()).erase := erase_bind

theorem erase_ite_of {c : Prop} [Decidable c] {x' y' : Prog E S α} (hx : x.erase = x') (hy : y.erase = y') :
    (if c then x else y).erase = if c then x' else y' := by
  split
  · exact hx
  · exact hy

/-! ## The log -/

theorem log_bind (h : x.erase e s = none) : (x >>= f).log e s = x.log e s := by
  change ((x >>= f) e s).1 = (x e s).1
  rw [bind_apply, show (x e s).2 = none from h]

theorem log_bind_of_eq {a : α} {s' : S} (h : x.erase e s = some (a,s')) :
    (x >>= f).log e s = x.log e s ++ (f a).log e s' := by
  change ((x >>= f) e s).1 = (x e s).1 ++ (f a e s').1
  rw [bind_apply, show (x e s).2 = some (a,s') from h]

/-- What the first part logs stays in the log. -/
theorem mem_log_bind (h : w ∈ x.log e s) : w ∈ (x >>= f).log e s := by
  cases hx : x.erase e s with
  | none => rwa [log_bind hx]
  | some p =>
    rw [log_bind_of_eq hx]
    exact List.mem_append_left _ h

theorem log_tell {g : Unit → Logged W E S β} : (tell w >>= g).log e s = w :: (g ()).log e s := log_bind_of_eq rfl

/-! ## What a run logs -/

/-- Every entry of a run that has a result satisfies `P`; if `u`, so does every entry of a run that has none. -/
def Logs (u : Prop) (P : W → Prop) (x : Logged W E S α) : Prop := ∀ e s, x.erase e s ≠ none ∨ u → ∀ w ∈ x.log e s, P w

namespace Logs
variable {u : Prop} {P : W → Prop}

theorem pure (a : α) : Logs u P (Pure.pure a : Logged W E S α) := fun _ _ _ _ hw => nomatch hw

theorem quiet (x : Prog E S α) : Logs u P (quiet x) := fun _ _ _ _ hw => nomatch hw

/-- The second part is only asked about results of the first one. -/
theorem bind (hx : Logs u P x) (hf : ∀ a e s s', x.erase e s = some (a,s') → Logs u P (f a)) : Logs u P (x >>= f) := by
  intro e s hrun w hw
  rw [erase_bind, Prog.bind_apply] at hrun
  cases hx' : x.erase e s with
  | none =>
    rw [hx', Option.bind_none] at hrun
    rw [log_bind hx'] at hw
    exact hx e s (.inr (hrun.resolve_left (absurd rfl))) w hw
  | some p =>
    rw [hx', Option.bind_some] at hrun
    rw [log_bind_of_eq hx'] at hw
    rcases List.mem_append.mp hw with hw | hw
    · exact hx e s (.inl (hx' ▸ Option.some_ne_none p)) w hw
    · exact hf p.1 e s p.2 hx' e p.2 hrun w hw

/-- The entry has to satisfy `P` only if the rest can have a result, or `u`. -/
theorem tell {g : Unit → Logged W E S β} (hw : ∀ e s, (g ()).erase e s ≠ none ∨ u → P w) (hg : Logs u P (g ())) :
    Logs u P (tell w >>= g) := by
  intro e s hrun v hv
  rw [erase_tell] at hrun
  rw [log_tell] at hv
  rcases List.mem_cons.mp hv with rfl | hv
  · exact hw e s hrun
  · exact hg e s hrun v hv

theorem ite {c : Prop} [Decidable c] (hx : c → Logs u P x) (hy : ¬c → Logs u P y) : Logs u P (if c then x else y) := by
  split
  · next h => exact hx h
  · next h => exact hy h

end Logs

end Logged

end SimpleFS.Machine
