import HyperIoVm.Effects.Routine

/-!
# Handlers: one interface implemented over another

A `Handler I J σ` implements each call of `I` as a computation over `J` with a state `σ` of
its own, as a driver implements a system call over device registers. `Program.handle` runs a
program over its handler. `wp_handle` is the refinement rule: when every call is simulated,
whatever the program guarantees over `I` it guarantees over `J`.
-/

namespace HyperIoVm.Effects

/-- An implementation of the calls of `I` over `J`. -/
abbrev Handler (I J : Interface) (σ : Type) := (c : I.Call) → Routine J σ (I.Reply c)

namespace Program

variable {I J : Interface} {σ K L α β : Type}

/-- Run `p` with its calls implemented by `h`. -/
def handle (h : Handler I J σ) : Program I α → Routine J σ α
  | .done a => pure a
  | .call c next => do
    let r ← h c
    (next r).handle h

@[simp] theorem handle_done (h : Handler I J σ) (a : α) :
    (Program.done a : Program I α).handle h = pure a := rfl

@[simp] theorem handle_call (h : Handler I J σ) (c : I.Call) (next : I.Reply c → Program I α) :
    (Program.call c next).handle h = (do let r ← h c; (next r).handle h) := rfl

/-- Handling a sequence handles its parts one after the other. -/
theorem handle_bind (h : Handler I J σ) (p : Program I α) (f : α → Program I β) :
    (p >>= f).handle h = (do let a ← p.handle h; (f a).handle h) := by
  induction p with
  | done a =>
    rw [done_bind, handle_done]
    exact (LawfulMonad.pure_bind (m := StateT σ (Program J)) a fun a => (f a).handle h).symm
  | call c next ih =>
    simp only [call_bind, handle_call, ih]
    exact (LawfulMonad.bind_assoc (m := StateT σ (Program J)) _ _ _).symm

/-- A handler simulates the contract `C` by the contract `D`: from related states, a call that
`C` allows is implemented by calls that `D` allows, answered as `C` assumes, and the states
it leaves are related again. -/
def Simulates (h : Handler I J σ) (C : Contract I K) (D : Contract J L)
    (R : K → σ → L → Prop) : Prop :=
  ∀ c k s l, R k s l → C.allows k c →
    (h c).wp D (fun r s' l' => C.assumes k c r ∧ R (C.next k c r) s' l') s l

/-- Refinement. Over a handler that simulates its contract, a program still obeys, and ends in
its postcondition for a related state. -/
theorem wp_handle {h : Handler I J σ} {C : Contract I K} {D : Contract J L}
    {R : K → σ → L → Prop} (hsim : Simulates h C D R) {p : Program I α} {Q : α → K → Prop}
    {k : K} {s : σ} {l : L} (hp : p.wp C Q k) (hR : R k s l) :
    (p.handle h).wp D (fun a s' l' => ∃ k', Q a k' ∧ R k' s' l') s l := by
  induction p generalizing k s l with
  | done a => exact ⟨k, hp, hR⟩
  | call c next ih =>
    rw [handle_call, Routine.wp_bind]
    refine Routine.wp_mono (hsim c k s l hR hp.1) ?_
    rintro r s' l' ⟨hr, hR'⟩
    exact ih r (hp.2 r hr) hR'

end Program

end HyperIoVm.Effects
