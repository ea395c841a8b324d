import HyperIoVm.Effects.Routine

/-!
# Runs of steps

A system that takes one step after the other, each step a routine over its state. A `Point` of
such a run is the state reached with the events so far; `points_keeps` is the invariant rule.
-/

namespace HyperIoVm.Effects

/-- A point of a run: the state reached, and the events so far. -/
abbrev Point (I : Interface) (σ : Type) := σ × List (Event I)

namespace Routine

variable {I : Interface} {K σ α ι : Type} {C : Contract I K}

/-- Run `m` at a point: its result, the state it leaves and the events it adds. -/
def runAt (m : Routine I σ α) (env : Environment I) (p : Point I σ) : (α × σ) × List (Event I) :=
  (m.run p.1).exec env p.2

/-- The point after one step. -/
def advance (step : ι → Routine I σ α) (env : Environment I) (p : Point I σ) (i : ι) :
    Point I σ :=
  (((step i).runAt env p).1.2, p.2 ++ ((step i).runAt env p).2)

/-- The point after a list of steps. -/
def points (step : ι → Routine I σ α) (env : Environment I) (p : Point I σ) (steps : List ι) :
    Point I σ := steps.foldl (advance step env) p

variable {step : ι → Routine I σ α} {env : Environment I} {p : Point I σ}

@[simp] theorem points_nil : points step env p [] = p := rfl

@[simp] theorem points_cons (i : ι) (steps : List ι) :
    points step env p (i :: steps) = points step env (advance step env p i) steps := rfl

@[simp] theorem points_append (first last : List ι) :
    points step env p (first ++ last) = points step env (points step env p first) last :=
  List.foldl_append

/-- What a routine guarantees from a state, it guarantees at a point in that state. -/
theorem wp_runAt (env : Environment I) (p : Point I σ) {m : Routine I σ α}
    {Q : α → σ → K → Prop} {k : K} (h : m.wp C Q p.1 k)
    (hassumed : C.Assumed k (m.runAt env p).2) : C.Obeyed k (m.runAt env p).2 ∧
      Q (m.runAt env p).1.1 (m.runAt env p).1.2 (C.after k (m.runAt env p).2) :=
  Program.wp_exec env p.2 h hassumed

/-- The invariant rule. What every step keeps holds at every point of a run that starts with
it, and the run obeys the contract. -/
theorem points_keeps {J : σ → K → Prop} {k : K} (hassumed : ∀ k es, C.Assumed k es)
    {steps : List ι} (hkeeps : ∀ i ∈ steps, Keeps C J (step i)) (hobeyed : C.Obeyed k p.2)
    (hJ : J p.1 (C.after k p.2)) : C.Obeyed k (points step env p steps).2 ∧
      J (points step env p steps).1 (C.after k (points step env p steps).2) := by
  induction steps generalizing p with
  | nil => exact ⟨hobeyed, hJ⟩
  | cons i steps ih =>
    obtain ⟨hstep, hJ'⟩ := wp_runAt env p
      (hkeeps i List.mem_cons_self p.1 _ hJ) (hassumed _ _)
    refine ih (p := advance step env p i) (fun j hj => hkeeps j (List.mem_cons_of_mem i hj)) ?_ ?_
    · exact C.obeyed_append.mpr ⟨hobeyed, hstep⟩
    · rw [advance, C.after_append]
      exact hJ'

end Routine

end HyperIoVm.Effects
