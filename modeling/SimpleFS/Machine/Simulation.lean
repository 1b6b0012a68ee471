import SimpleFS.Machine.Run

/-! # Simulating a specification

A specification says what a client may call and what a call may answer. A program that simulates it step by step
answers every run of allowed calls as the specification does.
-/
namespace SimpleFS.Machine

/-- The calls that are allowed in a state, and what they answer and leave. -/
structure Spec (A K R : Type) where
  allowed : A → K → Prop
  step : A → K → R → A → Prop

namespace Spec
variable {A K R : Type} {T : Spec A K R} {a b c : A} {q : K} {r : R} {l l' : List (K × R)}

/-- A run with its calls and answers. -/
inductive Run (T : Spec A K R) : A → List (K × R) → A → Prop
  | nil {a : A} : Run T a [] a
  | cons {a b c : A} {q : K} {r : R} {l : List (K × R)} (h : T.step a q r b) (hl : Run T b l c) : Run T a ((q,r) :: l) c

/-- Every call is allowed, whatever the specification has done before it. -/
inductive Permits (T : Spec A K R) : A → List (K × R) → Prop
  | nil {a : A} : Permits T a []
  | cons {a : A} {q : K} {r : R} {l : List (K × R)} (h : T.allowed a q) (hl : ∀ b, T.step a q r b → Permits T b l) :
      Permits T a ((q,r) :: l)

/-- What comes after a run is permitted. -/
theorem Permits.after (h : T.Permits a (l ++ l')) (hr : T.Run a l b) : T.Permits b l' := by
  induction hr with
  | nil => exact h
  | cons hs _ ih =>
    cases h with
    | cons _ hl => exact ih (hl _ hs)

/-- What comes first is permitted. -/
theorem Permits.before (h : T.Permits a (l ++ l')) : T.Permits a l := by
  induction l generalizing a with
  | nil => exact .nil
  | cons p l ih =>
    cases h with
    | cons hq hl => exact .cons hq (fun b hb => ih (hl b hb))

/-- Every call is allowed, and whatever the specification does, it ends with `Q`. -/
structure Leads (T : Spec A K R) (a : A) (l : List (K × R)) (Q : A → Prop) : Prop where
  permits : T.Permits a l
  ends : ∀ b, T.Run a l b → Q b

variable {Q Q' : A → Prop}

theorem Leads.nil (h : Q a) : T.Leads a [] Q :=
  ⟨.nil,fun b hb => by
    cases hb
    exact h⟩

theorem Leads.cons (h : T.allowed a q) (hl : ∀ b, T.step a q r b → T.Leads b l Q) : T.Leads a ((q,r) :: l) Q := by
  refine ⟨.cons h (fun b hb => (hl b hb).permits),fun c hc => ?_⟩
  cases hc with
  | cons hb hrest => exact (hl _ hb).ends c hrest

theorem Leads.append (h : T.Leads a l Q) (h' : ∀ b, Q b → T.Leads b l' Q') : T.Leads a (l ++ l') Q' := by
  induction l generalizing a with
  | nil => exact h' a (h.ends a .nil)
  | cons p l ih =>
    obtain ⟨hp,hq⟩ := h
    cases hp with
    | cons hc hl => exact .cons hc (fun b hb => ih ⟨hl b hb,fun c hc => hq c (.cons hb hc)⟩)

end Spec

variable {E S K R A : Type} {run : K → E → S → Option (R × S)} {P : E → Prop} {s t : S} {l l' : List (K × R)}

/-- The calls of a program with their answers, each in an environment of its own. -/
inductive Traced (run : K → E → S → Option (R × S)) (P : E → Prop) : S → List (K × R) → S → Prop
  | nil {s : S} : Traced run P s [] s
  | cons {e : E} {s t u : S} {q : K} {r : R} {l : List (K × R)} (he : P e) (hq : run q e s = some (r,t))
      (hl : Traced run P t l u) : Traced run P s ((q,r) :: l) u

theorem Traced.split (h : Traced run P s (l ++ l') t) : ∃ u, Traced run P s l u ∧ Traced run P u l' t := by
  induction l generalizing s with
  | nil => exact ⟨s,.nil,h⟩
  | cons p l ih =>
    cases h with
    | cons he hq hl =>
      obtain ⟨u,hu,ht⟩ := ih hl
      exact ⟨u,.cons he hq hu,ht⟩

section Simulation
variable {T : Spec A K R} {Q : S → A → Prop} {a : A}
  (hstep : ∀ {e s a c r t}, P e → Q s a → T.allowed a c → run c e s = some (r,t) → ∃ b, T.step a c r b ∧ Q t b)
include hstep

/-- Step by step, and so over a whole run. What the steps of calls of a kind keep holds at its end. -/
theorem Traced.keeps {G : K → R → Prop} {I : A → Prop}
    (hkeep : ∀ {s a c r b t}, Q s a → Q t b → T.allowed a c → G c r → T.step a c r b → I a → I b)
    (h : Traced run P s l t) (hR : Q s a) (hl : T.Permits a l) (hG : ∀ q ∈ l, G q.1 q.2) (ha : I a) :
    ∃ b, T.Run a l b ∧ Q t b ∧ I b := by
  induction h generalizing a with
  | nil => exact ⟨a,.nil,hR,ha⟩
  | cons he hq _ ih =>
    cases hl with
    | cons hallow hrest =>
      obtain ⟨b,hb,hRb⟩ := hstep he hR hallow hq
      have hI := hkeep hR hRb hallow (hG _ List.mem_cons_self) hb ha
      obtain ⟨c,hc,hRc,hIc⟩ := ih hRb (hrest b hb) (fun p hp => hG p (List.mem_cons_of_mem _ hp)) hI
      exact ⟨c,.cons hb hc,hRc,hIc⟩

theorem Traced.simulates (h : Traced run P s l t) (hR : Q s a) (hl : T.Permits a l) : ∃ b, T.Run a l b ∧ Q t b := by
  obtain ⟨b,hb,hRb,_⟩ := Traced.keeps (G := fun _ _ => True) (I := fun _ => True) hstep (fun _ _ _ _ _ _ => trivial) h hR hl
    (fun _ _ => trivial) trivial
  exact ⟨b,hb,hRb⟩

end Simulation

end SimpleFS.Machine
