import HyperIoVm.Effects.Routine

/-!
# Two contracts at once

The product of two contracts watches a program with both states: the program obeys both, and
the environment keeps its side of both. What is proved under the product holds under each of
the two.
-/

namespace HyperIoVm.Effects

variable {I : Interface} {K L : Type} {C : Contract I K} {D : Contract I L}

namespace Contract

/-- Both contracts side by side. -/
def prod (C : Contract I K) (D : Contract I L) : Contract I (K × L) where
  allows s c := C.allows s.1 c ∧ D.allows s.2 c
  assumes s c r := C.assumes s.1 c r ∧ D.assumes s.2 c r
  next s c r := (C.next s.1 c r, D.next s.2 c r)

theorem prod_after (k : K) (l : L) (es : List (Event I)) :
    (C.prod D).after (k, l) es = (C.after k es, D.after l es) := by
  induction es generalizing k l with
  | nil => rfl
  | cons e es ih => exact ih _ _

theorem prod_obeyed {k : K} {l : L} {es : List (Event I)} :
    (C.prod D).Obeyed (k, l) es ↔ C.Obeyed k es ∧ D.Obeyed l es := by
  induction es generalizing k l with
  | nil => simp
  | cons e es ih =>
    rw [obeyed_cons, obeyed_cons, obeyed_cons]
    refine (and_congr_right fun _ => ih).trans ?_
    exact and_and_and_comm

end Contract

/-- The first contract can be forgotten when it asks nothing of the environment. -/
theorem Program.wp_snd {α : Type} {p : Program I α} {Q : α → K × L → Prop} {s : K × L}
    (h : p.wp (C.prod D) Q s) (hassumes : ∀ k c r, C.assumes k c r) :
    p.wp D (fun a l => ∃ k, Q a (k, l)) s.2 := by
  induction p generalizing s with
  | done a => exact ⟨s.1, h⟩
  | call c next ih => exact ⟨h.1.2, fun r hr => ih r (h.2 r ⟨hassumes _ _ _, hr⟩)⟩

theorem Routine.wp_snd {σ α : Type} {m : Routine I σ α} {Q : α → σ → K × L → Prop} {s : σ} {k : K}
    {l : L} (h : m.wp (C.prod D) Q s (k, l)) (hassumes : ∀ k c r, C.assumes k c r) :
    m.wp D (fun a s' l' => ∃ k', Q a s' (k', l')) s l := Program.wp_snd h hassumes

end HyperIoVm.Effects
