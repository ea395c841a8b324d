import HyperIoVm.Confinement
import HyperIoVm.Outside

/-!
# Custody of what was acquired

The invariant of the service. `Backend.Sane` relates the fields of a backend to each other: a
device that holds anything borrows live memory, an attached device is bound and open.
`Custody` adds that the backend accounts for everything Linux holds. Every function of the
service keeps custody, on every path; the specifications here are of those that only give
things up.
-/

namespace HyperIoVm

open Effects Routine

/-! ## The invariant -/

/-- An endpoint of a client whose guest memory is `mapped`, or not. -/
structure Endpoint.Sane (e : Endpoint) (mapped : Bool) : Prop where
  attached : e.attached = true → e.bound = true ∧ e.fd.isSome = true
  queues : ∀ i, (e.kick i).isSome = true ∨ (e.call i).isSome = true →
    e.fd.isSome = true ∨ e.bound = true
  borrowed : e.fd.isSome = true ∨ e.bound = true → mapped = true
  routed : e.bound = true → e.notification.isSome = true

structure Backend.Sane (b : Backend) : Prop where
  endpoint : ∀ d, (b.endpoint d).Sane b.memory.isSome
  tap : b.tap.isSome = true → b.memory.isSome = true
  mapped : b.memory.isSome = true → b.memoryFd.isSome = true
  routed : b.token ≠ 0 → b.memoryEndpoint.notification.isSome = true
  managed : b.managed = true

/-- A sane backend that accounts for everything Linux holds. -/
structure Custody (b : Backend) (k : Outside) : Prop where
  sane : b.Sane
  holds : Holds b k

/-- An endpoint that holds nothing but its route. -/
structure Endpoint.Closed (e : Endpoint) : Prop where
  fd : e.fd = none
  bound : e.bound = false
  attached : e.attached = false
  queues : ∀ i, e.kick i = none ∧ e.call i = none

/-- Both devices are drained and closed. -/
structure Backend.Quiesced (b : Backend) : Prop where
  endpoint : ∀ d, (b.endpoint d).Closed
  tap : b.tap = none

theorem Endpoint.Closed.sane {e : Endpoint} (h : e.Closed) (mapped : Bool) : e.Sane mapped where
  attached ha := by rw [h.attached] at ha; cases ha
  queues i hq := by simp [h.queues i] at hq
  borrowed hb := by simp [h.fd, h.bound] at hb
  routed hb := by rw [h.bound] at hb; cases hb

/-- A sane endpoint without descriptor and binding is closed. -/
theorem Endpoint.Sane.closed {e : Endpoint} {mapped : Bool} (h : e.Sane mapped) (hfd : e.fd = none)
    (hbound : e.bound = false) : e.Closed where
  fd := hfd
  bound := hbound
  attached := Bool.eq_false_iff.mpr fun ha => by simpa [hbound] using (h.attached ha).1
  queues i := by
    have hq := h.queues i
    simp only [hfd, hbound, Option.isSome_none, Bool.false_eq_true, or_self, imp_false, not_or,
      Bool.not_eq_true, Option.isSome_eq_false_iff, Option.isNone_iff_eq_none] at hq
    exact hq

/-- One endpoint may change at a time. -/
theorem Backend.Sane.setEndpoint {b : Backend} (h : b.Sane) (d : Device) {e : Endpoint}
    (he : e.Sane b.memory.isSome) (hroute : e.notification = (b.endpoint d).notification) :
    (b.setEndpoint d e).Sane where
  endpoint d' := by
    rw [setEndpoint_memory]
    by_cases hd : d' = d
    · subst hd; rw [endpoint_setEndpoint]; exact he
    · rw [endpoint_setEndpoint_ne b e hd]; exact h.endpoint d'
  tap := by simpa using h.tap
  mapped := by simpa using h.mapped
  routed htoken := by
    have hsame : (b.setEndpoint d e).memoryEndpoint.notification =
        b.memoryEndpoint.notification := by
      unfold memoryEndpoint
      rw [setEndpoint_wwpn]
      split <;> cases d <;> first | rfl | exact hroute
    rw [hsame]
    exact h.routed (by simpa using htoken)
  managed := by simpa using h.managed

theorem Within.endpoint {ps : List Part} {b b' : Backend} (h : Within ps b b') (d : Device)
    (hd : d.part ∉ ps) : b'.endpoint d = b.endpoint d := by
  cases d with
  | storage => exact h.disk hd
  | network => exact h.net hd

/-- The block owner's tables and the diagnostics are no part of the invariant. -/
theorem Custody.within {b b' : Backend} {k : Outside} (h : Custody b k)
    (hb : Within [.blocks] b b') : Custody b' k := by
  have hendpoint (d : Device) : b'.endpoint d = b.endpoint d :=
    hb.endpoint d (by cases d <;> simp [Device.part])
  have hmemory : b'.memory = b.memory := hb.memory (by simp)
  have hmemoryFd : b'.memoryFd = b.memoryFd := hb.memoryFd (by simp)
  have htap : b'.tap = b.tap := hb.tap (by simp)
  have htoken : b'.token = b.token := hb.token (by simp)
  have hslots : b'.slots = b.slots := by
    funext slot
    cases slot <;> simp [Backend.slots, hendpoint, htap, hmemoryFd]
  refine ⟨⟨fun d => ?_, ?_, ?_, ?_, ?_⟩, ?_⟩
  · rw [hendpoint, hmemory]; exact h.sane.endpoint d
  · rw [htap, hmemory]; exact h.sane.tap
  · rw [hmemory, hmemoryFd]; exact h.sane.mapped
  · rw [htoken, Backend.memoryEndpoint, hb.wwpn, hb.disk (by simp), hb.net (by simp)]
    exact h.sane.routed
  · rw [hb.managed]; exact h.sane.managed
  · unfold Holds Backend.mapping
    rw [hslots, hmemory, hb.region (by simp), htoken]
    exact h.holds

/-! ## Calls that retire nothing -/

theorem Outside.ioctl_inert {command : Command} (h : command.inert = true) (k : Outside) (fd : Fd) :
    k.ioctl fd command = k := by
  have hobject (o : Object) : o.ioctl command = o := by
    cases command <;> first
      | exact absurd h Bool.false_ne_true
      | (cases o <;> rfl)
  have htoken : ∀ t, command ≠ .quiescent t := by rintro t rfl; exact absurd h Bool.false_ne_true
  calc k.ioctl fd command
      = ⟨k.fresh, (k.ioctl fd command).fds, k.maps, (k.ioctl fd command).tokens⟩ := rfl
    _ = k := by rw [ioctl_fds hobject, ioctl_tokens htoken]

theorem Outside.next_inert {c : Call} (h : c.inert = true) (k : Outside) (r : c.Reply) :
    k.next c r = k := by
  cases c with
  | ioctl fd command =>
    cases r with
    | ok => exact ioctl_inert h k fd
    | failed => rfl
  | _ => first | exact absurd h Bool.false_ne_true | rfl

theorem Outside.order_inert {c : Call} (h : c.inert = true) (k : Outside) :
    k.RetirementOrder c := by
  cases c with
  | ioctl fd command => cases command <;> first | exact absurd h Bool.false_ne_true | trivial
  | _ => first | exact absurd h Bool.false_ne_true | trivial

theorem Outside.tokenOrder_inert {c : Call} (h : c.inert = true) (k : Outside) :
    k.TokenOrder c := by
  cases c with
  | ioctl fd command => cases command <;> first | exact absurd h Bool.false_ne_true | trivial
  | _ => first | exact absurd h Bool.false_ne_true | trivial

/-- A silent computation leaves the backend, its diagnostics aside, and what Linux holds as
they are. -/
theorem Silent.wp {α : Type} {m : Service α} (h : Silent m) (b : Backend) (k : Outside) :
    m.wp linux (fun _ b' k' => k' = k ∧ Within [] b b') b k :=
  h.wp_of (C := linux) (fun k _ hc => ⟨fun _ => k.order_inert hc, k.tokenOrder_inert hc⟩)
    (fun k _ r hc => k.next_inert hc r) b k

theorem Custody.quietly {b b' : Backend} {k : Outside} (h : Custody b k) (hb : Within [] b b') :
    Custody b' k := h.within (hb.mono (by simp))

/-- A silent computation keeps custody. -/
theorem Silent.custody {α : Type} {m : Service α} (hm : Silent m) {b : Backend} {k : Outside}
    (h : Custody b k) : m.wp linux (fun _ b' k' => Custody b' k') b k :=
  wp_mono (hm.wp b k) fun _ _ _ hsame => hsame.1 ▸ h.quietly hsame.2

/-! ## Calls that retire something -/

section Calls

variable {slots : Slot → Option (Fd × Object)} {mapping : Option (UInt64 × UInt64)}
  {token : UInt64} {b : Backend} {k : Outside}

theorem wp_sys (c : Call) {Q : c.Reply → Backend → Outside → Prop}
    (hallow : (k.fresh = true → k.RetirementOrder c) ∧ k.TokenOrder c)
    (h : ∀ r, Q r b (k.next c r)) :
    (sys c).wp linux Q b k := (wp_perform _).mpr ⟨hallow, fun r _ => h r⟩

/-- An ioctl fails and changes nothing, or succeeds and changes one descriptor. -/
theorem wp_ioctl {fd : Option Fd} {command : Command} {Q : Outcome → Backend → Outside → Prop}
    (hallow : ∀ fd', fd = some fd' → (k.fresh = true → k.RetirementOrder (.ioctl fd' command)) ∧
      k.TokenOrder (.ioctl fd' command))
    (hfailed : Q .failed b k) (hok : ∀ fd', fd = some fd' → Q .ok b (k.ioctl fd' command)) :
    (ioctl fd command).wp linux Q b k := by
  cases fd with
  | none => exact hfailed
  | some fd =>
    refine wp_sys _ (hallow fd rfl) fun r => ?_
    cases r with
    | ok => exact hok fd rfl
    | failed => exact hfailed

/-- Closing the descriptor of a slot, if there is one, empties the slot. -/
theorem wp_closeIfOpen {s : Slot} {fd : Option Fd} {o : Object}
    (h : Owns slots mapping token k) (hslot : slots s = fd.map (·, o)) (ho : o.closable) :
    (closeIfOpen fd).wp linux (fun _ b' k' =>
      b' = b ∧ Owns (Function.update slots s none) mapping token k') b k := by
  cases fd with
  | none =>
    have hsame : Function.update slots s none = slots := by
      rw [show none = slots s from hslot.symm, Function.update_eq_self]
    exact ⟨rfl, hsame.symm ▸ h⟩
  | some fd =>
    show _ ∧ _
    exact ⟨⟨fun hfresh => ⟨o, h.live hfresh hslot, ho⟩, trivial⟩, fun _ _ => ⟨rfl, h.release hslot⟩⟩

end Calls

end HyperIoVm
