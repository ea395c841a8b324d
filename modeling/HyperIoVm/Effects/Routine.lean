import HyperIoVm.Effects.Contract

/-!
# Programs with a state of their own

A `Routine I σ α` is a program that also reads and updates a state `σ` it owns, as a C
function updates the structure it is given. `Routine.wp` is the weakest precondition over
both states, the program's own and the contract's; its rules follow the `do` notation.
-/

namespace HyperIoVm.Effects

/-- A program over the state `σ`. -/
abbrev Routine (I : Interface) (σ α : Type) := StateT σ (Program I) α

namespace Routine

variable {I : Interface} {K σ α β ι : Type} {C : Contract I K}

/-- Issue one call and return its reply; the own state does not change. -/
def perform (c : I.Call) : Routine I σ (I.Reply c) := fun s => .call c fun r => .done (r, s)

/-- From own state `s` and contract state `k`, the routine obeys `C` and ends in `Q`. -/
def wp (C : Contract I K) (m : Routine I σ α) (Q : α → σ → K → Prop) (s : σ) (k : K) : Prop :=
  (m.run s).wp C (fun r k' => Q r.1 r.2 k') k

variable {Q : α → σ → K → Prop} {s : σ} {k : K}

/-! ## Rules for the `do` notation -/

@[simp] theorem wp_pure (a : α) : (pure a : Routine I σ α).wp C Q s k ↔ Q a s k := Iff.rfl

@[simp] theorem wp_bind (m : Routine I σ α) (f : α → Routine I σ β) {Q : β → σ → K → Prop} :
    (m >>= f).wp C Q s k ↔ m.wp C (fun a s' k' => (f a).wp C Q s' k') s k := by
  unfold wp
  rw [StateT.run_bind, Program.wp_bind]

@[simp] theorem wp_get {Q : σ → σ → K → Prop} : (get : Routine I σ σ).wp C Q s k ↔ Q s s k :=
  Iff.rfl

@[simp] theorem wp_set (s' : σ) {Q : PUnit → σ → K → Prop} :
    (set s' : Routine I σ PUnit).wp C Q s k ↔ Q ⟨⟩ s' k := Iff.rfl

@[simp] theorem wp_modify (f : σ → σ) {Q : PUnit → σ → K → Prop} :
    (modify f : Routine I σ PUnit).wp C Q s k ↔ Q ⟨⟩ (f s) k := Iff.rfl

@[simp] theorem wp_perform (c : I.Call) {Q : I.Reply c → σ → K → Prop} :
    (perform c : Routine I σ _).wp C Q s k ↔
      C.allows k c ∧ ∀ r, C.assumes k c r → Q r s (C.next k c r) := Iff.rfl

@[simp] theorem wp_ite {p : Prop} [Decidable p] (m m' : Routine I σ α) :
    (if p then m else m').wp C Q s k ↔ if p then m.wp C Q s k else m'.wp C Q s k := by
  by_cases hp : p <;> simp [hp]

/-- The rule for a choice, with what is known in each case. -/
theorem wp_choice {p : Prop} [Decidable p] {m m' : Routine I σ α} (h : p → m.wp C Q s k)
    (h' : ¬ p → m'.wp C Q s k) : (if p then m else m').wp C Q s k := by
  by_cases hp : p
  · rw [if_pos hp]; exact h hp
  · rw [if_neg hp]; exact h' hp

theorem wp_mono {m : Routine I σ α} {Q Q' : α → σ → K → Prop} (h : m.wp C Q s k)
    (hQ : ∀ a s' k', Q a s' k' → Q' a s' k') : m.wp C Q' s k :=
  Program.wp_mono h fun r k' => hQ r.1 r.2 k'

theorem wp_and {m : Routine I σ α} {Q Q' : α → σ → K → Prop} (h : m.wp C Q s k)
    (h' : m.wp C Q' s k) : m.wp C (fun a s' k' => Q a s' k' ∧ Q' a s' k') s k :=
  Program.wp_and h h'

/-- What holds of the own state under the free contract holds under every contract. -/
theorem wp_and_free {m : Routine I σ α} {Q : α → σ → K → Prop} {Q' : α → σ → Prop}
    (h : m.wp C Q s k) (h' : m.wp (.free I) (fun a s' _ => Q' a s') s ()) :
    m.wp C (fun a s' k' => Q a s' k' ∧ Q' a s') s k :=
  Program.wp_and_free h h'

theorem wp_weaken {D : Contract I K} {m : Routine I σ α} (h : m.wp C Q s k)
    (hallow : ∀ k c, C.allows k c → D.allows k c)
    (hassumes : ∀ k c r, D.assumes k c r → C.assumes k c r)
    (hnext : ∀ k c r, D.next k c r = C.next k c r) : m.wp D Q s k :=
  Program.wp_weaken h hallow hassumes hnext

theorem wp_forget {A : (c : I.Call) → I.Reply c → Prop} {m : Routine I σ α}
    {Q : α → σ → K → Prop} (h : m.wp C Q s k) (hA : ∀ k c r, A c r → C.assumes k c r) :
    m.wp (.assuming A) (fun a s' _ => ∃ k', Q a s' k') s () :=
  Program.wp_forget h hA

theorem wp_free {m : Routine I σ α} {Q : α → σ → Prop} (hQ : ∀ a s, Q a s) :
    m.wp (.free I) (fun a s' _ => Q a s') s () :=
  Program.wp_free fun r => hQ r.1 r.2

theorem wp_drop {m : Routine I σ α} (h : m.wp C Q s k) (hassumes : ∀ k c r, C.assumes k c r) :
    m.wp (.free I) (fun a s' _ => ∃ k', Q a s' k') s () :=
  Program.wp_drop h hassumes

/-- A history only grows. -/
theorem wp_history (m : Routine I σ α) (s : σ) (h : List (Event I)) :
    m.wp (.history I) (fun _ _ h' => ∃ es, h' = h ++ es) s h := Program.wp_history (m.run s) h

theorem wp_of_only {P : I.Call → Prop} {m : Routine I σ α} {Q : α → σ → Prop}
    (h : m.wp (.only P) (fun a s' _ => Q a s') s ()) (hallow : ∀ c, P c → C.allows k c)
    (hnext : ∀ c r, P c → C.next k c r = k) :
    m.wp C (fun a s' k' => k' = k ∧ Q a s') s k :=
  Program.wp_of_only (Q := fun r : α × σ => Q r.1 r.2) h hallow hnext

/-- A loop over a list: `J` holds before the first element, with the empty list of elements
done, and each round extends the elements done by one. -/
theorem wp_forM {l : List ι} {f : ι → Routine I σ PUnit} {J : List ι → σ → K → Prop}
    (hstep : ∀ pre i post, l = pre ++ i :: post → ∀ s k, J pre s k →
      (f i).wp C (fun _ s' k' => J (pre ++ [i]) s' k') s k)
    (h : J [] s k) : (forM l f).wp C (fun _ s' k' => J l s' k') s k := by
  -- the induction is on the elements to come, the elements done stay a prefix of `l`
  suffices hgen : ∀ post pre s k, l = pre ++ post → J pre s k →
      (forM post f).wp C (fun _ s' k' => J l s' k') s k from hgen l [] s k rfl h
  intro post
  induction post with
  | nil =>
    intro pre s k hl hJ
    rw [List.append_nil] at hl
    simpa [hl] using hJ
  | cons i post ih =>
    intro pre s k hl hJ
    rw [List.forM_cons, wp_bind]
    refine wp_mono (hstep pre i post hl s k hJ) fun _ s' k' hJ' => ?_
    exact ih (pre ++ [i]) s' k' (by simp [hl]) hJ'

/-! ## Invariants of a routine -/

/-- `m` keeps `J`: from a state where `J` holds it obeys the contract and ends in one. -/
def Keeps (C : Contract I K) (J : σ → K → Prop) (m : Routine I σ α) : Prop :=
  ∀ s k, J s k → m.wp C (fun _ s' k' => J s' k') s k

variable {J : σ → K → Prop}

theorem keeps_pure (a : α) : Keeps C J (pure a : Routine I σ α) := fun _ _ h => h

theorem keeps_bind {m : Routine I σ α} {f : α → Routine I σ β} (hm : Keeps C J m)
    (hf : ∀ a, Keeps C J (f a)) : Keeps C J (m >>= f) := fun s k h =>
  (wp_bind m f).mpr (wp_mono (hm s k h) fun a s' k' h' => hf a s' k' h')

theorem keeps_ite {p : Prop} [Decidable p] {m m' : Routine I σ α} (h : p → Keeps C J m)
    (h' : ¬ p → Keeps C J m') : Keeps C J (if p then m else m') := by
  by_cases hp : p
  · rw [if_pos hp]; exact h hp
  · rw [if_neg hp]; exact h' hp

theorem keeps_get : Keeps C J (get : Routine I σ σ) := fun _ _ h => h

theorem keeps_modify {f : σ → σ} (h : ∀ s k, J s k → J (f s) k) :
    Keeps C J (modify f : Routine I σ PUnit) := h

theorem keeps_perform {c : I.Call} (hallow : ∀ s k, J s k → C.allows k c)
    (hnext : ∀ s k r, J s k → J s (C.next k c r)) : Keeps C J (perform c : Routine I σ _) :=
  fun s k h => ⟨hallow s k h, fun r _ => hnext s k r h⟩

/-- What more events cannot undo stays true of the history. -/
theorem keeps_history {P : List (Event I) → Prop} (hP : ∀ h es, P h → P (h ++ es))
    (m : Routine I σ α) : Keeps (.history I) (fun _ h => P h) m := by
  intro s h hp
  refine Program.wp_mono (Program.wp_history (m.run s) h) ?_
  rintro _ _ ⟨es, rfl⟩
  exact hP h es hp

theorem keeps_forM {l : List ι} {f : ι → Routine I σ PUnit} (h : ∀ i, Keeps C J (f i)) :
    Keeps C J (forM l f) := fun _ _ hJ =>
  wp_forM (J := fun _ => J) (fun _ i _ _ s k hs => h i s k hs) hJ

end Routine

end HyperIoVm.Effects
