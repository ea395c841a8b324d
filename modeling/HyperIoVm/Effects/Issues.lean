import HyperIoVm.Effects.Routine

/-!
# The calls a routine may issue

`Issues P m` says that `m` issues only calls of `P`, whatever they answer. It is closed under
the `do` notation, and reduces a property over a contract that takes no notice of these calls
to one of the routine's own state.
-/

namespace HyperIoVm.Effects.Routine

variable {I : Interface} {K σ α β ι : Type} {P P' : I.Call → Prop} {m : Routine I σ α}
  {f : α → Routine I σ β}

/-- On every path, `m` issues calls of `P` only. -/
def Issues (P : I.Call → Prop) (m : Routine I σ α) : Prop :=
  Keeps (.only P) (fun _ _ => True) m

namespace Issues

theorem mono (h : Issues P m) (hP : ∀ c, P c → P' c) : Issues P' m := fun s k hk =>
  wp_mono (wp_of_only (Q := fun _ _ => True) (h s k hk) hP fun _ _ _ => rfl) fun _ _ _ _ => trivial

theorem pure (a : α) : Issues P (Pure.pure a : Routine I σ α) := keeps_pure a

theorem bind (hm : Issues P m) (hf : ∀ a, Issues P (f a)) : Issues P (m >>= f) := keeps_bind hm hf

theorem ite {p : Prop} [Decidable p] {m' : Routine I σ α} (h : Issues P m) (h' : Issues P m') :
    Issues P (if p then m else m') := keeps_ite (fun _ => h) fun _ => h'

theorem get : Issues P (MonadState.get : Routine I σ σ) := keeps_get

theorem modify (g : σ → σ) : Issues P (modify g : Routine I σ PUnit) :=
  keeps_modify fun _ _ _ => trivial

theorem perform {c : I.Call} (h : P c) : Issues P (perform c : Routine I σ _) :=
  keeps_perform (fun _ _ _ => h) fun _ _ _ _ => trivial

theorem forM {l : List ι} {f : ι → Routine I σ PUnit} (h : ∀ i, Issues P (f i)) :
    Issues P (forM l f) := keeps_forM h

/-- What a routine does with its own state, it does under every contract that allows its calls
and takes no notice of them. -/
theorem wp {C : Contract I K} {Q : α → σ → Prop} {s : σ} {k : K} (h : Issues P m)
    (hfree : m.wp (.free I) (fun a s' _ => Q a s') s ()) (hallow : ∀ c, P c → C.allows k c)
    (hnext : ∀ c r, P c → C.next k c r = k) : m.wp C (fun a s' k' => k' = k ∧ Q a s') s k :=
  wp_of_only (wp_mono (wp_and_free (h s () trivial) hfree) fun _ _ _ hpost => hpost.2) hallow hnext

/-- Calls that keep a property of the contract's state, in a routine that makes no others. -/
theorem wp_keep {C : Contract I K} {J : K → Prop} {Q : α → σ → Prop} {s : σ} {k : K}
    (h : Issues P m) (hfree : m.wp (.free I) (fun a s' _ => Q a s') s ())
    (hallow : ∀ k c, J k → P c → C.allows k c) (hnext : ∀ k c r, J k → P c → J (C.next k c r))
    (hJ : J k) : m.wp C (fun a s' k' => J k' ∧ Q a s') s k :=
  Program.wp_keep_of_only (Q := fun r : α × σ => Q r.1 r.2)
    (wp_mono (wp_and_free (h s () trivial) hfree) fun _ _ _ hpost => hpost.2) hallow hnext hJ

end Issues

end HyperIoVm.Effects.Routine
