import HyperIoVm.Effects.Handler
import HyperIoVm.Effects.Issues

/-!
# Routines on a handled interface

`m.layered h` is the routine `m` with its calls implemented by the handler `h`: one routine of
the interface below, over the state of `m` and the state of `h`. The rules follow the `do`
notation of `m`, so that a proof steps through `m` and, at each call, through what `h` does for it.
-/

namespace HyperIoVm.Effects.Routine

variable {I J : Interface} {σ τ K α β : Type} {h : Handler I J τ} {C : Contract J K}

/-- `m` with its calls implemented by `h`. -/
def layered (m : Routine I σ α) (h : Handler I J τ) : Routine J (σ × τ) α := fun st => do
  let r ← ((m.run st.1).handle h).run st.2
  return (r.1.1, r.1.2, r.2)

variable {Q : α → σ × τ → K → Prop} {s : σ} {t : τ} {k : K}

theorem wp_layered {m : Routine I σ α} : (m.layered h).wp C Q (s, t) k ↔
    ((m.run s).handle h).wp C (fun r t' k' => Q r.1 (r.2, t') k') t k :=
  Iff.of_eq (congrArg _ rfl) |>.trans (Program.wp_bind _ _ _ _)

@[simp] theorem wp_layered_pure (a : α) :
    ((pure a : Routine I σ α).layered h).wp C Q (s, t) k ↔ Q a (s, t) k := Iff.rfl

@[simp] theorem wp_layered_bind (m : Routine I σ α) (f : α → Routine I σ β)
    {Q : β → σ × τ → K → Prop} : ((m >>= f).layered h).wp C Q (s, t) k ↔
      (m.layered h).wp C (fun a st k' => ((f a).layered h).wp C Q st k') (s, t) k := by
  rw [wp_layered, wp_layered, StateT.run_bind, Program.handle_bind, wp_bind]
  exact Iff.of_eq (congrArg (fun Q => Routine.wp C _ Q t k) (funext fun r => funext fun t' =>
    funext fun k' => propext wp_layered.symm))

@[simp] theorem wp_layered_get {Q : σ → σ × τ → K → Prop} :
    ((get : Routine I σ σ).layered h).wp C Q (s, t) k ↔ Q s (s, t) k := Iff.rfl

@[simp] theorem wp_layered_modify (f : σ → σ) {Q : PUnit → σ × τ → K → Prop} :
    ((modify f : Routine I σ PUnit).layered h).wp C Q (s, t) k ↔ Q ⟨⟩ (f s, t) k := Iff.rfl

@[simp] theorem wp_layered_perform (c : I.Call) {Q : I.Reply c → σ × τ → K → Prop} :
    ((perform c : Routine I σ _).layered h).wp C Q (s, t) k ↔
      (h c).wp C (fun r t' k' => Q r (s, t') k') t k := by
  rw [wp_layered]
  show ((h c) >>= fun r => pure (r, s)).wp C _ t k ↔ _
  rw [wp_bind]
  rfl

@[simp] theorem wp_layered_ite {p : Prop} [Decidable p] (m m' : Routine I σ α) :
    ((if p then m else m').layered h).wp C Q (s, t) k ↔
      if p then (m.layered h).wp C Q (s, t) k else (m'.layered h).wp C Q (s, t) k := by
  by_cases hp : p <;> simp [hp]

/-- What the handler keeps at each of the calls that `m` may issue, `m` keeps; its own state and
result are those it has on any replies. -/
theorem Issues.wp_layered {P : I.Call → Prop} {m : Routine I σ α} {J' : τ → K → Prop}
    {R : α → σ → Prop} (hm : Issues P m) (hfree : m.wp (.free I) (fun a s' _ => R a s') s ())
    (hkeeps : ∀ c, P c → Keeps C J' (h c)) (hJ : J' t k) :
    (m.layered h).wp C (fun a st k' => J' st.2 k' ∧ R a st.1) (s, t) k := by
  have hsim : Program.Simulates h (Contract.only P) C fun _ t k => J' t k := fun c _ t k hJ hc =>
    wp_mono (hkeeps c hc t k hJ) fun _ _ _ hJ' => ⟨trivial, hJ'⟩
  have honly : m.wp (.only P) (fun a s' _ => R a s') s () :=
    wp_mono (wp_and_free (hm s () trivial) hfree) fun _ _ _ hpost => hpost.2
  rw [Routine.wp_layered]
  refine wp_mono (Program.wp_handle hsim honly hJ) fun r t' k' hpost => ?_
  obtain ⟨-, hR, hJ'⟩ := hpost
  exact ⟨hJ', hR⟩

end HyperIoVm.Effects.Routine
