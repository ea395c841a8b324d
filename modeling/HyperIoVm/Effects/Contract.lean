import HyperIoVm.Effects.Program

/-!
# Contracts between a program and its environment

A `Contract I K` watches the calls of a program with a state `k : K`, its view of what
the environment holds. In state `k` the program may only issue the calls it `allows`; in
return the environment only gives replies the contract `assumes`; and every call with its
reply moves the state on (`next`).

`wp` is the weakest precondition of a program under a contract: from a state that
satisfies it, the program obeys the contract whatever the replies are, and ends in the
postcondition. `wp_exec` ties it to the runs of `Program.exec`.
-/

namespace HyperIoVm.Effects

/-- The obligations of a program and of its environment, over a state of type `K`. -/
structure Contract (I : Interface) (K : Type) where
  allows : K → I.Call → Prop
  assumes : K → (c : I.Call) → I.Reply c → Prop
  next : K → (c : I.Call) → I.Reply c → K

namespace Contract

variable {I : Interface} {K : Type} (C : Contract I K)

/-- The state after a sequence of events. -/
def after (k : K) (es : List (Event I)) : K := es.foldl (fun k e => C.next k e.1 e.2) k

@[simp] theorem after_nil (k : K) : C.after k [] = k := rfl

@[simp] theorem after_cons (k : K) (e : Event I) (es : List (Event I)) :
    C.after k (e :: es) = C.after (C.next k e.1 e.2) es := rfl

@[simp] theorem after_append (k : K) (es fs : List (Event I)) :
    C.after k (es ++ fs) = C.after (C.after k es) fs := List.foldl_append

/-- Every reply is one the contract lets the environment give. -/
def Assumed : K → List (Event I) → Prop
  | _, [] => True
  | k, e :: es => C.assumes k e.1 e.2 ∧ Assumed (C.next k e.1 e.2) es

/-- Every call is one the contract lets the program issue. -/
def Obeyed : K → List (Event I) → Prop
  | _, [] => True
  | k, e :: es => C.allows k e.1 ∧ Obeyed (C.next k e.1 e.2) es

@[simp] theorem assumed_nil (k : K) : C.Assumed k [] := trivial

@[simp] theorem obeyed_nil (k : K) : C.Obeyed k [] := trivial

@[simp] theorem assumed_cons {k : K} {e : Event I} {es : List (Event I)} :
    C.Assumed k (e :: es) ↔ C.assumes k e.1 e.2 ∧ C.Assumed (C.next k e.1 e.2) es := Iff.rfl

@[simp] theorem obeyed_cons {k : K} {e : Event I} {es : List (Event I)} :
    C.Obeyed k (e :: es) ↔ C.allows k e.1 ∧ C.Obeyed (C.next k e.1 e.2) es := Iff.rfl

instance decidableAssumed [∀ k c r, Decidable (C.assumes k c r)] :
    (k : K) → (es : List (Event I)) → Decidable (C.Assumed k es)
  | _, [] => inferInstanceAs (Decidable True)
  | k, e :: es =>
    have := decidableAssumed (C.next k e.1 e.2) es
    inferInstanceAs (Decidable (C.assumes k e.1 e.2 ∧ C.Assumed (C.next k e.1 e.2) es))

theorem assumed_append {k : K} {es fs : List (Event I)} :
    C.Assumed k (es ++ fs) ↔ C.Assumed k es ∧ C.Assumed (C.after k es) fs := by
  induction es generalizing k with
  | nil => simp
  | cons e es ih => simp [ih, and_assoc]

theorem obeyed_append {k : K} {es fs : List (Event I)} :
    C.Obeyed k (es ++ fs) ↔ C.Obeyed k es ∧ C.Obeyed (C.after k es) fs := by
  induction es generalizing k with
  | nil => simp
  | cons e es ih => simp [ih, and_assoc]

/-- A call in the middle of an obedient sequence was allowed where it was issued. -/
theorem Obeyed.allows {k : K} {es fs : List (Event I)} {e : Event I}
    (h : C.Obeyed k (es ++ e :: fs)) : C.allows (C.after k es) e.1 :=
  ((C.obeyed_append.mp h).2).1

/-- Every reply is assumed in the state in which it is given. -/
theorem assumed_of_forall {k : K} {es : List (Event I)}
    (h : ∀ pre e post, es = pre ++ e :: post → C.assumes (C.after k pre) e.1 e.2) :
    C.Assumed k es := by
  induction es generalizing k with
  | nil => trivial
  | cons e es ih =>
    refine ⟨h [] e es rfl, ih fun pre e' post hes => ?_⟩
    exact h (e :: pre) e' post (by rw [hes]; rfl)

/-- A contract that asks nothing of the environment is kept by every one. -/
theorem assumed_of_all {C : Contract I K} (h : ∀ k c r, C.assumes k c r) {k : K}
    {es : List (Event I)} : C.Assumed k es := by
  induction es generalizing k with
  | nil => trivial
  | cons e es ih => exact ⟨h k e.1 e.2, ih⟩

/-- The contract that obliges nobody and watches nothing: what holds under it holds of the
program's own state alone. -/
def free (I : Interface) : Contract I Unit where
  allows _ _ := True
  assumes _ _ _ := True
  next _ _ _ := ()

theorem free_assumed (k : Unit) (es : List (Event I)) : (free I).Assumed k es :=
  assumed_of_all fun _ _ _ => trivial

/-- The contract that allows some calls and watches nothing. -/
def only (P : I.Call → Prop) : Contract I Unit where
  allows _ c := P c
  assumes _ _ _ := True
  next _ _ _ := ()

theorem only_assumed {P : I.Call → Prop} (k : Unit) (es : List (Event I)) :
    (only P : Contract I Unit).Assumed k es :=
  assumed_of_all fun _ _ _ => trivial

theorem only_obeyed {P : I.Call → Prop} {k : Unit} {es : List (Event I)}
    (h : (only P : Contract I Unit).Obeyed k es) : ∀ e ∈ es, P e.1 := by
  induction es with
  | nil => simp
  | cons e es ih =>
    rintro e' (_ | he')
    · exact h.1
    · exact ih h.2 e' ‹_›

/-- The contract that obliges the environment only, to the replies `A`, and watches nothing. -/
def assuming (A : (c : I.Call) → I.Reply c → Prop) : Contract I Unit where
  allows _ _ := True
  assumes _ := A
  next _ _ _ := ()

theorem assuming_assumed {A : (c : I.Call) → I.Reply c → Prop} {k : Unit} {es : List (Event I)}
    (h : ∀ e ∈ es, A e.1 e.2) : (assuming A).Assumed k es := by
  induction es generalizing k with
  | nil => trivial
  | cons e es ih =>
    exact ⟨h e List.mem_cons_self, ih fun e' he' => h e' (List.mem_cons_of_mem _ he')⟩

/-- The contract that only records the events, and obliges nobody. -/
def history (I : Interface) : Contract I (List (Event I)) where
  allows _ _ := True
  assumes _ _ _ := True
  next h c r := h ++ [⟨c, r⟩]

theorem history_after (h es : List (Event I)) : (history I).after h es = h ++ es := by
  induction es generalizing h with
  | nil => simp
  | cons e es ih =>
    show (history I).after (h ++ [e]) es = h ++ e :: es
    rw [ih, List.append_assoc, List.singleton_append]

theorem history_assumed (h es : List (Event I)) : (history I).Assumed h es :=
  assumed_of_all fun _ _ _ => trivial

end Contract

/-! ## Weakest preconditions -/

namespace Program

variable {I : Interface} {K : Type} {C : Contract I K} {α β : Type}

/-- `p.wp C Q k`: from `k` the program obeys `C` on every reply it may assume, and its
result and last state satisfy `Q`. -/
def wp (C : Contract I K) : Program I α → (α → K → Prop) → K → Prop
  | .done a, Q, k => Q a k
  | .call c next, Q, k =>
    C.allows k c ∧ ∀ r, C.assumes k c r → (next r).wp C Q (C.next k c r)

@[simp] theorem wp_done (a : α) (Q : α → K → Prop) (k : K) :
    (Program.done a : Program I α).wp C Q k = Q a k := rfl

theorem wp_call (c : I.Call) (next : I.Reply c → Program I α) (Q : α → K → Prop) (k : K) :
    (Program.call c next).wp C Q k =
      (C.allows k c ∧ ∀ r, C.assumes k c r → (next r).wp C Q (C.next k c r)) := rfl

theorem wp_mono {p : Program I α} {Q Q' : α → K → Prop} {k : K} (h : p.wp C Q k)
    (hQ : ∀ a k', Q a k' → Q' a k') : p.wp C Q' k := by
  induction p generalizing k with
  | done a => exact hQ a k h
  | call c next ih => exact ⟨h.1, fun r hr => ih r (h.2 r hr)⟩

/-- Sequencing: the postcondition of the first part is the precondition of the second. -/
theorem wp_bind (p : Program I α) (f : α → Program I β) (Q : β → K → Prop) (k : K) :
    (p >>= f).wp C Q k ↔ p.wp C (fun a k' => (f a).wp C Q k') k := by
  induction p generalizing k with
  | done a => rfl
  | call c next ih =>
    simp only [call_bind, wp_call, ih]

theorem wp_and {p : Program I α} {Q Q' : α → K → Prop} {k : K} (h : p.wp C Q k)
    (h' : p.wp C Q' k) : p.wp C (fun a k' => Q a k' ∧ Q' a k') k := by
  induction p generalizing k with
  | done a => exact ⟨h, h'⟩
  | call c next ih => exact ⟨h.1, fun r hr => ih r (h.2 r hr) (h'.2 r hr)⟩

/-- What holds under the free contract holds under every contract the program obeys. -/
theorem wp_and_free {p : Program I α} {Q : α → K → Prop} {Q' : α → Prop} {k : K}
    (h : p.wp C Q k) (h' : p.wp (.free I) (fun a _ => Q' a) ()) :
    p.wp C (fun a k' => Q a k' ∧ Q' a) k := by
  induction p generalizing k with
  | done a => exact ⟨h, h'⟩
  | call c next ih => exact ⟨h.1, fun r hr => ih r (h.2 r hr) (h'.2 r trivial)⟩

/-- Under a contract that allows more, assumes more and watches the same. -/
theorem wp_weaken {D : Contract I K} {p : Program I α} {Q : α → K → Prop} {k : K} (h : p.wp C Q k)
    (hallow : ∀ k c, C.allows k c → D.allows k c)
    (hassumes : ∀ k c r, D.assumes k c r → C.assumes k c r)
    (hnext : ∀ k c r, D.next k c r = C.next k c r) : p.wp D Q k := by
  induction p generalizing k with
  | done a => exact h
  | call c next ih =>
    refine ⟨hallow k c h.1, fun r hr => ?_⟩
    rw [hnext]
    exact ih r (h.2 r (hassumes k c r hr))

/-- A contract's state can be forgotten, and more assumed of the replies. -/
theorem wp_forget {A : (c : I.Call) → I.Reply c → Prop} {p : Program I α} {Q : α → K → Prop}
    {k : K} (h : p.wp C Q k) (hA : ∀ k c r, A c r → C.assumes k c r) :
    p.wp (.assuming A) (fun a _ => ∃ k', Q a k') () := by
  induction p generalizing k with
  | done a => exact ⟨k, h⟩
  | call c next ih => exact ⟨trivial, fun r hr => ih r (h.2 r (hA k c r hr))⟩

/-- A contract that asks nothing of the environment can be dropped. -/
theorem wp_drop {p : Program I α} {Q : α → K → Prop} {k : K} (h : p.wp C Q k)
    (hassumes : ∀ k c r, C.assumes k c r) : p.wp (.free I) (fun a _ => ∃ k', Q a k') () := by
  induction p generalizing k with
  | done a => exact ⟨k, h⟩
  | call c next ih => exact ⟨trivial, fun r _ => ih r (h.2 r (hassumes k c r))⟩

/-- A history only grows. -/
theorem wp_history (p : Program I α) (h : List (Event I)) :
    p.wp (.history I) (fun _ h' => ∃ es, h' = h ++ es) h := by
  induction p generalizing h with
  | done a => exact ⟨[], (List.append_nil h).symm⟩
  | call c next ih =>
    refine ⟨trivial, fun r _ => wp_mono (ih r _) ?_⟩
    rintro _ _ ⟨es, rfl⟩
    exact ⟨⟨c, r⟩ :: es, List.append_assoc h [⟨c, r⟩] es⟩

/-- The free contract asks for nothing: a postcondition that always holds is reached. -/
theorem wp_free {p : Program I α} {Q : α → Prop} (hQ : ∀ a, Q a) :
    p.wp (.free I) (fun a _ => Q a) () := by
  induction p with
  | done a => exact hQ a
  | call c next ih => exact ⟨trivial, fun r _ => ih r⟩

/-- Soundness. In an environment that keeps its side, a run from a state that satisfies
the weakest precondition keeps the program's side and ends in the postcondition. -/
theorem wp_exec (env : Environment I) (past : List (Event I)) {p : Program I α}
    {Q : α → K → Prop} {k : K} (h : p.wp C Q k) (hr : C.Assumed k (p.exec env past).2) :
    C.Obeyed k (p.exec env past).2 ∧ Q (p.exec env past).1 (C.after k (p.exec env past).2) := by
  induction p generalizing past k with
  | done a => exact ⟨trivial, h⟩
  | call c next ih =>
    rw [exec_call] at hr ⊢
    obtain ⟨hallow, hnext⟩ := h
    obtain ⟨hobey, hpost⟩ := ih _ _ (hnext _ hr.1) hr.2
    exact ⟨⟨hallow, hobey⟩, hpost⟩

/-- Calls that keep a property of the contract's state, in a program that makes no others. -/
theorem wp_keep_of_only {P : I.Call → Prop} {p : Program I α} {Q : α → Prop} {J : K → Prop} {k : K}
    (h : p.wp (.only P) (fun a _ => Q a) ()) (hallow : ∀ k c, J k → P c → C.allows k c)
    (hnext : ∀ k c r, J k → P c → J (C.next k c r)) (hJ : J k) :
    p.wp C (fun a k' => J k' ∧ Q a) k := by
  induction p generalizing k with
  | done a => exact ⟨hJ, h⟩
  | call c next ih =>
    exact ⟨hallow k c hJ h.1, fun r _ => ih r (h.2 r trivial) (hnext k c r hJ h.1)⟩

/-- What a program does with harmless calls only holds under every contract that allows them
and takes no notice of them. -/
theorem wp_of_only {P : I.Call → Prop} {p : Program I α} {Q : α → Prop} {k : K}
    (h : p.wp (.only P) (fun a _ => Q a) ()) (hallow : ∀ c, P c → C.allows k c)
    (hnext : ∀ c r, P c → C.next k c r = k) : p.wp C (fun a k' => k' = k ∧ Q a) k :=
  wp_keep_of_only (J := fun k' => k' = k) h (fun _ c hk hc => hk ▸ hallow c hc)
    (fun _ c r hk hc => by rw [hk, hnext c r hc]) rfl

end Program

end HyperIoVm.Effects
