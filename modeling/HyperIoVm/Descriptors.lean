import Mathlib.Algebra.BigOperators.Fin
import Mathlib.Algebra.Order.Group.Multiset
import HyperIoVm.Effects.Product
import HyperIoVm.Frame

/-!
# Accounting for descriptors

What a sequence of system calls opened, what it closed, and what is left over. The contract
`descriptors` lets a program close only what it has opened before and not closed since; then
every descriptor that is not left over was closed exactly as often as it was opened.
-/

namespace HyperIoVm

open Effects

/-- The descriptor a field holds, as a multiset. -/
def slot (fd : Option Fd) : Multiset Fd := fd.elim 0 ({·})

@[simp] theorem slot_none : slot none = 0 := rfl

@[simp] theorem slot_some (fd : Fd) : slot (some fd) = {fd} := rfl

/-! ## Opened and closed -/

/-- The descriptor a call answered. -/
def Call.obtained : (c : Call) → c.Reply → Option Fd
  | .openNode _, .ok fd => some fd
  | .eventfd, fd => fd
  | .socket, fd => fd
  | _, _ => none

/-- The descriptor a call closes, whatever it answers. -/
def Call.closes : Call → Option Fd
  | .close fd => some fd
  | _ => none

/-- The descriptors a sequence of calls opened. -/
def opened (es : List (Event Sys)) : Multiset Fd :=
  (es.map fun e => slot (Call.obtained e.1 e.2)).sum

/-- The descriptors a sequence of calls closed. -/
def closed (es : List (Event Sys)) : Multiset Fd := (es.map fun e => slot (Call.closes e.1)).sum

/-- Nothing is closed before it was opened, and in the end what was opened is closed or in
`held`: a descriptor that is not in `held` was closed exactly as often as it was opened. -/
def Balanced (es : List (Event Sys)) (held : Multiset Fd) : Prop :=
  opened es = closed es + held ∧ ∀ pre post, es = pre ++ post → closed pre ≤ opened pre

/-! ## The contract -/

/-- Only what is open may be closed. The state is what is open. -/
def descriptors : Contract Sys (Multiset Fd) where
  allows fds c := ∀ fd, Call.closes c = some fd → fd ∈ fds
  assumes _ _ _ := True
  next fds c r := (slot (Call.obtained c r) + fds) - slot (Call.closes c)

theorem descriptors_assumed (fds : Multiset Fd) (es : List (Event Sys)) :
    descriptors.Assumed fds es := Contract.assumed_of_all fun _ _ _ => trivial

/-- One call opens what is added and closes what is taken away. -/
theorem descriptors_step {fds : Multiset Fd} {c : Call} (h : descriptors.allows fds c)
    (r : c.Reply) :
    fds + slot (c.obtained r) = slot c.closes + descriptors.next fds c r := by
  have hle : slot c.closes ≤ slot (c.obtained r) + fds := by
    cases hc : c.closes with
    | none => exact Multiset.zero_le _
    | some fd =>
      exact (Multiset.singleton_le.mpr (h fd hc)).trans (Multiset.le_add_left _ _)
  show fds + slot (c.obtained r) = slot c.closes + ((slot (c.obtained r) + fds) - slot c.closes)
  rw [add_tsub_cancel_of_le hle, add_comm]

/-- What was open and what was opened is closed or still open. -/
theorem descriptors_balance {fds : Multiset Fd} {es : List (Event Sys)}
    (h : descriptors.Obeyed fds es) : fds + opened es = closed es + descriptors.after fds es := by
  induction es generalizing fds with
  | nil => simp [opened, closed]
  | cons e es ih =>
    have hstep := descriptors_step h.1 e.2
    calc fds + opened (e :: es)
        = fds + slot (Call.obtained e.1 e.2) + opened es := by simp [opened, add_assoc]
      _ = slot (Call.closes e.1) + (descriptors.next fds e.1 e.2 + opened es) := by
          rw [hstep, add_assoc]
      _ = closed (e :: es) + descriptors.after fds (e :: es) := by
          rw [ih h.2]; simp [closed, add_assoc]

theorem descriptors_balanced {es : List (Event Sys)} (h : descriptors.Obeyed 0 es) :
    Balanced es (descriptors.after 0 es) := by
  refine ⟨by simpa using descriptors_balance h, fun pre post hes => ?_⟩
  subst hes
  have hpre := descriptors_balance (descriptors.obeyed_append.mp h).1
  rw [zero_add] at hpre
  rw [hpre]
  exact Multiset.le_add_right _ _

/-! ## What an endpoint holds -/

/-- The descriptors an endpoint holds, apart from its notification route. -/
def Endpoint.held (e : Endpoint) : Multiset Fd :=
  slot e.fd + ∑ i, slot (e.kick i) + ∑ i, slot (e.call i)

/-- Replacing one of six fields replaces what it holds. -/
theorem sum_update (f : Fin 6 → Option Fd) (i : Fin 6) (fd : Option Fd) :
    ∑ j, slot (Function.update f i fd j) + slot (f i) = ∑ j, slot (f j) + slot fd := by
  have hsame : ∀ j ∈ Finset.univ.erase i, slot (Function.update f i fd j) = slot (f j) :=
    fun j hj => by rw [Function.update_of_ne (Finset.ne_of_mem_erase hj)]
  rw [← Finset.add_sum_erase _ _ (Finset.mem_univ i), ← Finset.add_sum_erase _ (fun j => slot (f j))
    (Finset.mem_univ i), Finset.sum_congr rfl hsame, Function.update_self]
  ac_rfl

namespace Endpoint

variable (e : Endpoint)

theorem held_fd (fd : Option Fd) : { e with fd }.held + slot e.fd = e.held + slot fd := by
  simp only [held]
  ac_rfl

/-- Replacing the eventfds of a queue replaces what they hold. -/
theorem held_queue (i : Fin 6) (kick call : Option Fd) :
    { e with kick := Function.update e.kick i kick, call := Function.update e.call i call }.held +
      (slot (e.kick i) + slot (e.call i)) = e.held + (slot kick + slot call) := by
  have hkick := sum_update e.kick i kick
  have hcall := sum_update e.call i call
  calc _ = slot e.fd + (∑ j, slot (Function.update e.kick i kick j) + slot (e.kick i)) +
          (∑ j, slot (Function.update e.call i call j) + slot (e.call i)) := by
        simp only [held]
        ac_rfl
    _ = e.held + (slot kick + slot call) := by
        rw [hkick, hcall]
        simp only [held]
        ac_rfl

end Endpoint

end HyperIoVm
