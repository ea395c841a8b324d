import Mathlib.Logic.Basic

/-!
# Programs that call an environment

A `Program I α` computes an `α` and may, on the way, issue calls of an `Interface I`.
Every call has its own type of replies; the program continues on whatever reply it gets,
so one program stands for all the ways its environment can treat it.

`exec` runs a program against an `Environment`, which chooses each reply from the calls
and replies that came before. Quantifying over environments quantifies over every choice
of outcomes, failures included, adaptive ones too.
-/

namespace HyperIoVm.Effects

/-- The calls a program may issue, each with the type of its replies. -/
structure Interface where
  Call : Type
  Reply : Call → Type

/-- A computation of an `α` that may call the environment along the way. -/
inductive Program (I : Interface) (α : Type) where
  | done (a : α)
  | call (c : I.Call) (next : I.Reply c → Program I α)

/-- A call together with the reply the environment gave. -/
abbrev Event (I : Interface) := (c : I.Call) × I.Reply c

/-- An environment answers each call from the events that came before it. -/
abbrev Environment (I : Interface) := List (Event I) → (c : I.Call) → I.Reply c

namespace Program

variable {I J : Interface} {α β γ : Type}

/-- Run `p`, then the program its result selects. -/
def bind : Program I α → (α → Program I β) → Program I β
  | .done a, f => f a
  | .call c next, f => .call c fun r => (next r).bind f

instance : Monad (Program I) where
  pure := .done
  bind := bind

/-- The program that issues one call and returns its reply. -/
def perform (c : I.Call) : Program I (I.Reply c) := .call c .done

@[simp] theorem pure_eq (a : α) : (pure a : Program I α) = .done a := rfl

@[simp] theorem done_bind (a : α) (f : α → Program I β) : Program.done a >>= f = f a := rfl

@[simp] theorem call_bind (c : I.Call) (next : I.Reply c → Program I α) (f : α → Program I β) :
    Program.call c next >>= f = .call c fun r => next r >>= f := rfl

theorem bind_done (p : Program I α) : p >>= (fun a => .done a) = p := by
  induction p with
  | done a => rfl
  | call c next ih => simp only [call_bind, ih]

theorem bind_assoc (p : Program I α) (f : α → Program I β) (g : β → Program I γ) :
    p >>= f >>= g = p >>= fun a => f a >>= g := by
  induction p with
  | done a => rfl
  | call c next ih => simp only [call_bind, ih]

instance : LawfulMonad (Program I) :=
  LawfulMonad.mk' (Program I) bind_done (fun _ _ => rfl) bind_assoc

/-! ## Execution -/

/-- Run a program against `env` after the events `past`: its result and the events it
adds, in order. -/
def exec (env : Environment I) : List (Event I) → Program I α → α × List (Event I)
  | _, .done a => (a, [])
  | past, .call c next =>
    let e : Event I := ⟨c, env past c⟩
    let (a, es) := exec env (past ++ [e]) (next e.2)
    (a, e :: es)

variable {env : Environment I} {past : List (Event I)}

@[simp] theorem exec_done (a : α) : (Program.done a : Program I α).exec env past = (a, []) := rfl

theorem exec_call (c : I.Call) (next : I.Reply c → Program I α) :
    (Program.call c next).exec env past =
      (((next (env past c)).exec env (past ++ [⟨c, env past c⟩])).1,
        ⟨c, env past c⟩ :: ((next (env past c)).exec env (past ++ [⟨c, env past c⟩])).2) := rfl

/-- Running a sequence runs its parts one after the other, the second one with the events
of the first in its past. -/
theorem exec_bind (p : Program I α) (f : α → Program I β) :
    (p >>= f).exec env past =
      (((f (p.exec env past).1).exec env (past ++ (p.exec env past).2)).1,
        (p.exec env past).2 ++
          ((f (p.exec env past).1).exec env (past ++ (p.exec env past).2)).2) := by
  induction p generalizing past with
  | done a => simp
  | call c next ih =>
    simp only [call_bind, exec_call, ih, List.append_assoc, List.cons_append, List.nil_append]

/-- Every reply of a run is the environment's. -/
theorem mem_exec {p : Program I α} {e : Event I} (h : e ∈ (p.exec env past).2) :
    ∃ past', e.2 = env past' e.1 := by
  induction p generalizing past with
  | done a => exact absurd h List.not_mem_nil
  | call c next ih =>
    rw [exec_call] at h
    obtain h | h := List.mem_cons.mp h
    · exact ⟨past, by rw [h]⟩
    · exact ih _ h

/-- What is computed from a result makes no call. -/
theorem exec_bind_done (p : Program I α) (f : α → β) :
    (p >>= fun a => .done (f a)).exec env past = (f (p.exec env past).1, (p.exec env past).2) := by
  rw [exec_bind, exec_done, List.append_nil]

end Program

end HyperIoVm.Effects
