/-!
# Runs of a step function

A system is a step function that takes an action, or refuses it. A run is a sequence of actions, in
whatever order they come. What every step keeps holds in every state a run reaches, and what relates
the states around every step relates the states around every run; a condition on the steps of a run
can be part of both.
-/

namespace HyperIoVm.Data

variable {S A : Type}

/-- The state after a sequence of actions. -/
def runSteps (step : S → A → Option S) : S → List A → Option S
  | s, [] => some s
  | s, a :: as => (step s a).bind fun s' => runSteps step s' as

/-- Every step of the run meets the condition. -/
def StepsMeet (step : S → A → Option S) (ok : S → A → Prop) : S → List A → Prop
  | _, [] => True
  | s, a :: as => ok s a ∧ ∀ s', step s a = some s' → StepsMeet step ok s' as

variable {step : S → A → Option S} {ok : S → A → Prop} {s s' mid mid' : S} {a : A}
  {as bs : List A}

theorem runSteps_cons : runSteps step s (a :: as) = some s' ↔
    ∃ mid, step s a = some mid ∧ runSteps step mid as = some s' := Option.bind_eq_some_iff

theorem runSteps_append : runSteps step s (as ++ bs) = some s' ↔
    ∃ mid, runSteps step s as = some mid ∧ runSteps step mid bs = some s' := by
  induction as generalizing s with
  | nil =>
    constructor
    · exact fun h => ⟨s, rfl, h⟩
    · intro h
      obtain ⟨mid, hmid, h⟩ := h
      obtain rfl := Option.some_inj.mp hmid
      exact h
  | cons a as ih =>
    rw [List.cons_append, runSteps_cons]
    constructor
    · intro h
      obtain ⟨s₁, hs₁, h⟩ := h
      obtain ⟨mid, hmid, h⟩ := ih.mp h
      exact ⟨mid, runSteps_cons.mpr ⟨s₁, hs₁, hmid⟩, h⟩
    · intro h
      obtain ⟨mid, hmid, h⟩ := h
      obtain ⟨s₁, hs₁, hmid⟩ := runSteps_cons.mp hmid
      exact ⟨s₁, hs₁, ih.mpr ⟨mid, hmid, h⟩⟩

theorem stepsMeet_append (h : StepsMeet step ok s (as ++ bs))
    (hmid : runSteps step s as = some mid) :
    StepsMeet step ok s as ∧ StepsMeet step ok mid bs := by
  induction as generalizing s with
  | nil =>
    obtain rfl := Option.some_inj.mp hmid
    exact ⟨trivial, h⟩
  | cons a as ih =>
    obtain ⟨s₁, hs₁, hmid⟩ := runSteps_cons.mp hmid
    obtain ⟨has, hbs⟩ := ih (h.2 s₁ hs₁) hmid
    refine ⟨⟨h.1, fun s₂ hs₂ => ?_⟩, hbs⟩
    obtain rfl := Option.some_inj.mp (hs₁.symm.trans hs₂)
    exact has

/-- The invariant rule: what every step keeps, every run keeps. -/
theorem runSteps_keep {J : S → Prop}
    (hstep : ∀ s a s', J s → ok s a → step s a = some s' → J s')
    (hs : J s) (hok : StepsMeet step ok s as) (h : runSteps step s as = some s') : J s' := by
  induction as generalizing s with
  | nil =>
    obtain rfl := Option.some_inj.mp h
    exact hs
  | cons a as ih =>
    obtain ⟨s₁, hs₁, h⟩ := runSteps_cons.mp h
    exact ih (hstep s a s₁ hs hok.1 hs₁) (hok.2 s₁ hs₁) h

/-- The invariant rule without a condition. -/
theorem runSteps_invariant {J : S → Prop} (hstep : ∀ s a s', J s → step s a = some s' → J s')
    (hs : J s) (h : runSteps step s as = some s') : J s' := by
  induction as generalizing s with
  | nil =>
    obtain rfl := Option.some_inj.mp h
    exact hs
  | cons a as ih =>
    obtain ⟨s₁, hs₁, h⟩ := runSteps_cons.mp h
    exact ih (hstep s a s₁ hs hs₁) h

/-- A run whose actions are of one kind meets what they meet in every state they keep. -/
theorem stepsMeet_of_keep {J : S → Prop} {K : A → Prop}
    (hstep : ∀ s a s', J s → K a → step s a = some s' → J s')
    (hok : ∀ s a, J s → K a → ok s a) (has : ∀ a ∈ as, K a) (hs : J s) :
    StepsMeet step ok s as := by
  induction as generalizing s with
  | nil => trivial
  | cons a as ih =>
    have ha := has a List.mem_cons_self
    refine ⟨hok s a hs ha, fun s' hs' => ?_⟩
    exact ih (fun b hb => has b (List.mem_cons_of_mem a hb)) (hstep s a s' hs ha hs')

end HyperIoVm.Data
