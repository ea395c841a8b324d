import HyperIoVm.Effects.Routine

/-!
# Two interfaces side by side

A program may call two environments at once: one that is modelled, through a contract, and one
that may answer as it likes. `Interface.sum` has the calls of both, and `Contract.beside` watches
the calls of the second while it records the events of the first. What a program of the first
interface did on the way, it also does alone, in the environment that replays what was recorded.
-/

namespace HyperIoVm.Effects

variable {I J : Interface} {L α β : Type}

/-- The calls of `I` and the calls of `J`. -/
def Interface.sum (I J : Interface) : Interface where
  Call := I.Call ⊕ J.Call
  Reply := Sum.elim I.Reply J.Reply

namespace Program

/-- A program of `I`, with `J` at hand. -/
def left : Program I α → Program (I.sum J) α
  | .done a => .done a
  | .call c next => .call (.inl c) fun r => (next r).left

/-- A program of `J`, with `I` at hand. -/
def right : Program J α → Program (I.sum J) α
  | .done a => .done a
  | .call c next => .call (.inr c) fun r => (next r).right

end Program

/-- The contract that watches the calls of `J` and only records the events of `I`. -/
def Contract.beside (D : Contract J L) : Contract (I.sum J) (List (Event I) × L) where
  allows k c := match c with
    | .inl _ => True
    | .inr c => D.allows k.2 c
  assumes k c r := match c, r with
    | .inl _, _ => True
    | .inr c, r => D.assumes k.2 c r
  next k c r := match c, r with
    | .inl c, r => (k.1 ++ [⟨c, r⟩], k.2)
    | .inr c, r => (k.1, D.next k.2 c r)

/-! ## Replaying what was recorded -/

/-- The environment that gives the replies of `events`, and `fallback` to any other call. -/
def Environment.replay [DecidableEq I.Call] (fallback : (c : I.Call) → I.Reply c)
    (events : List (Event I)) : Environment I := fun past c =>
  match events[past.length]? with
  | none => fallback c
  | some e => if h : e.1 = c then h ▸ e.2 else fallback c

theorem Environment.replay_next [DecidableEq I.Call] (fallback : (c : I.Call) → I.Reply c)
    (past rest : List (Event I)) (c : I.Call) (r : I.Reply c) :
    replay fallback (past ++ ⟨c, r⟩ :: rest) past c = r := by
  rw [replay, List.getElem?_append_right (Nat.le_refl _), Nat.sub_self, List.getElem?_cons_zero]
  exact dif_pos rfl

namespace Program

/-- An environment keeps its side in every run, when it does in the states of an invariant, which
its replies keep. -/
theorem exec_assumed_of {K : Type} {C : Contract I K} {env : Environment I} {k : K} {J : K → Prop}
    (h : ∀ past c, J (C.after k past) → C.assumes (C.after k past) c (env past c) ∧
      J (C.next (C.after k past) c (env past c)))
    (p : Program I α) (past : List (Event I)) (hJ : J (C.after k past)) :
    C.Assumed (C.after k past) (p.exec env past).2 := by
  induction p generalizing past with
  | done a => exact trivial
  | call c next ih =>
    obtain ⟨hreply, hkept⟩ := h past c hJ
    have hafter : C.after k (past ++ [⟨c, env past c⟩]) =
        C.next (C.after k past) c (env past c) := C.after_append k past _
    have hrest := ih (env past c) (past ++ [⟨c, env past c⟩])
    rw [hafter] at hrest
    exact ⟨hreply, hrest hkept⟩

theorem exec_assumed {K : Type} {C : Contract I K} {env : Environment I} {k : K}
    (h : ∀ past c, C.assumes (C.after k past) c (env past c)) (p : Program I α)
    (past : List (Event I)) : C.Assumed (C.after k past) (p.exec env past).2 :=
  exec_assumed_of (J := fun _ => True) (fun past c _ => ⟨h past c, trivial⟩) p past trivial

variable {D : Contract J L} {es : List (Event I)} {l : L}

/-! ## Rules -/

/-- A program of `J` runs as it does alone. -/
theorem wp_right {p : Program J α} {Q : α → List (Event I) × L → Prop} :
    p.right.wp D.beside Q (es, l) ↔ p.wp D (fun a l' => Q a (es, l')) l := by
  induction p generalizing l with
  | done a => exact Iff.rfl
  | call c next ih =>
    show (D.allows l c ∧ ∀ r, D.assumes l c r → wp D.beside (next r).right Q (es, D.next l c r)) ↔ _
    exact and_congr Iff.rfl (forall_congr' fun r => imp_congr Iff.rfl (ih r))

/-- A program of `I` leaves the contract alone, and does what it does when the events that were
recorded are replayed, whatever follows them. -/
theorem wp_left [DecidableEq I.Call] (fallback : (c : I.Call) → I.Reply c) {p : Program I α} :
    p.left.wp D.beside (fun a k => ∃ es', k = (es ++ es', l) ∧
      ∀ rest, p.exec (Environment.replay fallback (es ++ es' ++ rest)) es = (a, es')) (es, l) := by
  induction p generalizing es with
  | done a => exact ⟨[], by rw [List.append_nil], fun _ => rfl⟩
  | call c next ih =>
    refine ⟨trivial, fun r _ => wp_mono (ih r) fun a k hpost => ?_⟩
    obtain ⟨es', rfl, hexec⟩ := hpost
    refine ⟨⟨c, r⟩ :: es', by rw [List.append_assoc, List.singleton_append], fun rest => ?_⟩
    have hreply : Environment.replay fallback (es ++ ⟨c, r⟩ :: es' ++ rest) es c = r := by
      rw [List.append_assoc, List.cons_append]
      exact Environment.replay_next fallback es (es' ++ rest) c r
    have hnext := hexec rest
    rw [List.append_assoc es, List.singleton_append] at hnext
    rw [exec_call, hreply, hnext]

end Program

end HyperIoVm.Effects
