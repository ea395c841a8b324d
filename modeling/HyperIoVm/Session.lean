import Mathlib.Data.Fintype.Pi
import HyperIoVm.Wire

/-!
# Sessions (`include/hyper_io_session.h`)

Binding and transactions belong to the client; epochs belong to devices. A session admits
a record of its own binding when the record's epoch is not behind its device's, and moves
to a new binding only on a primary HELLO with a greater binding while nothing is held.
-/

namespace HyperIoVm

/-- `struct hyper_io_session`. -/
structure Session where
  binding : UInt64 := 0
  epoch : Fin 2 → UInt64 := fun _ => 0
  retired : Bool := false
  deriving DecidableEq

/-- The results -1, 0 and 1 of `hyper_io_session_admit`. -/
inductive Admit where
  | refused | current | takeover
  deriving DecidableEq, Repr

/-- `hyper_io_session_admit`: the verdict, and the session it leaves. -/
def hyperIoSessionAdmit (s : Session) (binding epoch : UInt64) (hello idle : Bool)
    (device : Nat) : Admit × Session :=
  if h : binding == 0 || epoch == 0 || epoch > 0xffffffff || device > 1 then (.refused, s)
  else
    have hdevice : device < 2 := by simp at h; omega
    if s.binding ≠ binding then
      if !hello || !idle || binding ≤ s.binding then (.refused, s)
      else (.takeover, { binding, epoch := Function.update (fun _ => 0) ⟨device, hdevice⟩ epoch,
                         retired := false })
    else if epoch < s.epoch ⟨device, hdevice⟩ then (.refused, s)
    else (.current, s)

/-- `hyper_io_session_preparable`. -/
def hyperIoSessionPreparable (s : Session) : Bool := s.binding != 0 && !s.retired

/-- `hyper_io_session_retire`. -/
def hyperIoSessionRetire (s : Session) : Session := { s with retired := true }

/-! ## What admission can do -/

/-- The three outcomes of admission, each with all that it implies. -/
theorem session_admit_cases (s : Session) (binding epoch : UInt64) (hello idle : Bool)
    (device : Fin 2) :
    let r := hyperIoSessionAdmit s binding epoch hello idle device
    r = (.refused, s) ∨
    (r = (.current, s) ∧ binding = s.binding ∧ s.epoch device ≤ epoch ∧ binding ≠ 0 ∧ epoch ≠ 0) ∨
    (r = (.takeover, { binding, epoch := Function.update (fun _ => 0) device epoch,
                       retired := false }) ∧
      hello = true ∧ idle = true ∧ s.binding < binding ∧ epoch ≠ 0 ∧ epoch ≤ 0xffffffff) := by
  intro r
  unfold r hyperIoSessionAdmit
  split
  next => exact .inl rfl
  next hframe =>
    simp only [Bool.or_eq_true, beq_iff_eq, decide_eq_true_eq, not_or, UInt64.not_lt,
      gt_iff_lt] at hframe
    obtain ⟨⟨⟨hbinding, hepoch⟩, hmax⟩, -⟩ := hframe
    split
    next =>
      split
      next => exact .inl rfl
      next htake =>
        simp only [Bool.or_eq_true, Bool.not_eq_true', decide_eq_true_eq, not_or,
          UInt64.not_le, Bool.not_eq_false] at htake
        exact .inr (.inr ⟨rfl, htake.1.1, htake.1.2, htake.2, hepoch, hmax⟩)
    next hsame =>
      dsimp only
      split
      next => exact .inl rfl
      next hcurrent =>
        exact .inr
          (.inl ⟨rfl, (not_not.mp hsame).symm, UInt64.not_lt.mp hcurrent, hbinding, hepoch⟩)

/-- A record of the session's own binding is admitted when its epoch is not behind. -/
theorem session_admit_current {s : Session} {epoch : UInt64} {hello idle : Bool} (device : Fin 2)
    (hbinding : s.binding ≠ 0) (hepoch : epoch ≠ 0) (hmax : epoch ≤ 0xffffffff)
    (hle : s.epoch device ≤ epoch) :
    hyperIoSessionAdmit s s.binding epoch hello idle device = (.current, s) := by
  have hdevice : ¬ 1 < device.val := by omega
  simp [hyperIoSessionAdmit, hbinding, hepoch, UInt64.not_lt.mpr hmax, hdevice,
    UInt64.not_lt.mpr hle]

/-- A primary HELLO with a greater binding and a valid epoch is admitted while idle. -/
theorem session_admit_takeover {s : Session} {binding epoch : UInt64} (device : Fin 2)
    (hbinding : s.binding < binding) (hepoch : epoch ≠ 0) (hmax : epoch ≤ 0xffffffff) :
    (hyperIoSessionAdmit s binding epoch true true device).1 = .takeover := by
  have hnonzero : binding ≠ 0 := by
    rintro rfl
    exact absurd hbinding (UInt64.not_lt.mpr UInt64.zero_le)
  have hne : s.binding ≠ binding := UInt64.ne_of_lt hbinding
  have hdevice : ¬ 1 < device.val := by omega
  simp [hyperIoSessionAdmit, hnonzero, hepoch, UInt64.not_lt.mpr hmax, hdevice, hne,
    UInt64.not_le.mpr hbinding]

end HyperIoVm
