import HyperIoVm.Effects.Contract
import HyperIoVm.Effects.Handles
import HyperIoVm.Setup

/-!
# What Linux holds for the service

A ghost view of the kernel, driven by the service's calls and their answers alone: what each
open descriptor stands for, which mappings are live, which tokens are admitted and not yet
retired. `RetirementOrder` states when a call that retires something may be issued; the
contract `linux` asks it of the service, for as long as Linux answers every `open` with a
descriptor that is not in use.
-/

namespace HyperIoVm

open Effects

/-- What a descriptor stands for, as far as retirement depends on it. -/
inductive Object where
  /-- A vhost device; `attached` while it may serve a guest's rings. -/
  | vhost (device : Device) (attached : Bool)
  /-- The notification route of a device; `bound` while the driver holds eventfds. -/
  | route (device : Device) (bound : Bool)
  | tap
  | eventfd
  /-- The guest-memory device; `released` once it has given the pages up. -/
  | memory (released : Bool)
  | other
  deriving DecidableEq, Repr

/-- What opening a node gives. -/
def Node.object : Node → Object
  | .memory _ => .memory false
  | .vhost d => .vhost d false
  | .tun => .tap
  | .disk _ | .mapperControl | .attribute _ => .other

/-- What a successful ioctl makes of the object it is issued on. -/
def Object.ioctl : Object → Command → Object
  | .route d _, .bind _ => .route d true
  | .route d _, .unbind => .route d false
  | .vhost d _, .setEndpoint _ => .vhost d true
  | .vhost d _, .clearEndpoint _ => .vhost d false
  | .vhost d _, .netSetBackend _ _ => .vhost d true
  | .vhost d _, .resetOwner => .vhost d false
  | .memory _, .memoryRelease => .memory true
  | o, _ => o

/-- A descriptor may be closed once nothing runs behind it. -/
def Object.closable : Object → Prop
  | .vhost _ attached => attached = false
  | .memory released => released = true
  | .route _ _ => False
  | .tap | .eventfd | .other => True

/-- What Linux holds for the service. -/
structure Outside where
  /-- No call answered a descriptor that was still in use. -/
  fresh : Bool := true
  fds : Fd → Option Object
  maps : UInt64 → Option UInt64 := fun _ => none
  tokens : UInt64 → Option Unit := fun _ => none

namespace Outside

def acquire (k : Outside) (fd : Fd) (o : Object) : Outside :=
  { k with fresh := k.fresh && (k.fds fd).isNone, fds := Function.update k.fds fd (some o) }

def release (k : Outside) (fd : Fd) : Outside := { k with fds := Function.update k.fds fd none }

def ioctl (k : Outside) (fd : Fd) (command : Command) : Outside :=
  { k with
    fds := Function.update k.fds fd ((k.fds fd).map (·.ioctl command))
    tokens := match command with
      | .quiescent token => Function.update k.tokens token none
      | _ => k.tokens }

/-- How a call and its answer change what Linux holds. -/
def next (k : Outside) : (c : Call) → c.Reply → Outside
  | .openNode node, .ok fd => k.acquire fd node.object
  | .eventfd, some fd => k.acquire fd .eventfd
  | .socket, some fd => k.acquire fd .other
  | .close fd, _ => k.release fd
  | .ioctl fd command, .ok => k.ioctl fd command
  | .mmap _ length, some address =>
    { k with maps := Function.update k.maps address (some length) }
  | .munmap address _, .ok => { k with maps := Function.update k.maps address none }
  | .ioAdmit _ admission, some _ =>
    { k with tokens := Function.update k.tokens admission.token (some ()) }
  | _, _ => k

/-- Nothing outside can reach the guest's memory: every vhost descriptor and TAP is closed and
every notification route unbound. -/
structure Quiet (k : Outside) : Prop where
  vhost : ∀ fd d attached, k.fds fd ≠ some (.vhost d attached)
  route : ∀ fd d, k.fds fd ≠ some (.route d true)
  tap : ∀ fd, k.fds fd ≠ some .tap

/-- When a call that retires something may be issued. -/
def RetirementOrder (k : Outside) : Call → Prop
  | .ioctl fd (.clearEndpoint _) => k.fds fd = some (.vhost .storage true)
  | .ioctl fd .resetOwner => k.fds fd = some (.vhost .network true)
  | .ioctl fd .unbind => ∃ d, k.fds fd = some (.route d true) ∧
      ∀ fd' attached, k.fds fd' ≠ some (.vhost d attached)
  | .close fd => ∃ o, k.fds fd = some o ∧ o.closable
  | .munmap address length => k.maps address = some length ∧ k.Quiet
  | .ioctl fd .memoryRelease => k.fds fd = some (.memory false) ∧ k.Quiet ∧
      ∀ address, k.maps address = none
  | .ioctl fd (.quiescent token) => (∃ d, k.fds fd = some (.route d false)) ∧
      k.tokens token = some () ∧ k.Quiet ∧ (∀ address, k.maps address = none) ∧
      ∀ fd' released, k.fds fd' ≠ some (.memory released)
  | _ => True

/-- Nothing of the guest's memory is mapped or open. -/
structure Free (k : Outside) : Prop where
  maps : ∀ address, k.maps address = none
  memory : k.fresh = true → ∀ fd released, k.fds fd ≠ some (.memory released)

/-- When the notification driver may be handed a token: while the memory is free, and a token
that is retired must have been admitted. -/
def TokenOrder (k : Outside) : Call → Prop
  | .ioAdmit _ _ => k.Free
  | .ioctl _ (.quiescent token) => k.Free ∧ k.tokens token = some ()
  | _ => True

end Outside

/-- The contract between the service and Linux: retirement happens in order, unless Linux
handed out a descriptor twice. Nothing is assumed of the answers. -/
def linux : Contract Sys Outside where
  allows k c := (k.fresh = true → k.RetirementOrder c) ∧ k.TokenOrder c
  assumes _ _ _ := True
  next := Outside.next

theorem linux_assumed (k : Outside) (es : List (Event Sys)) : linux.Assumed k es := by
  induction es generalizing k with
  | nil => trivial
  | cons e es ih => exact ⟨trivial, ih _⟩

/-- What Linux holds when the control loop starts: the notification routes. -/
def Setup.outside (setup : Setup) : Outside where
  fds fd :=
    if setup.backend.disk.notification = some fd then some (.route .storage false)
    else if setup.backend.net.notification = some fd then some (.route .network false)
    else none

/-! ## Slots -/

/-- Where an endpoint records a descriptor. -/
inductive Field where
  | vhost | route
  | kick (i : Fin 6)
  | call (i : Fin 6)
  deriving DecidableEq

/-- Where a backend records a descriptor. -/
inductive Slot where
  | endpoint (d : Device) (field : Field)
  | tap
  | memory
  deriving DecidableEq

/-- The descriptors the endpoint of `d` records, and what it takes each one to stand for. -/
def Endpoint.slots (e : Endpoint) (d : Device) : Field → Option (Fd × Object)
  | .vhost => e.fd.map (·, .vhost d e.attached)
  | .route => e.notification.map (·, .route d e.bound)
  | .kick i => (e.kick i).map (·, .eventfd)
  | .call i => (e.call i).map (·, .eventfd)

/-- The descriptors a backend records. -/
def Backend.slots (b : Backend) : Slot → Option (Fd × Object)
  | .endpoint d field => (b.endpoint d).slots d field
  | .tap => b.tap.map (·, .tap)
  | .memory => b.memoryFd.map (·, .memory false)

namespace Backend

@[simp] theorem endpoint_setEndpoint (b : Backend) (d : Device) (e : Endpoint) :
    (b.setEndpoint d e).endpoint d = e := by cases d <;> rfl

theorem endpoint_setEndpoint_ne (b : Backend) {d d' : Device} (e : Endpoint) (h : d' ≠ d) :
    (b.setEndpoint d e).endpoint d' = b.endpoint d' := by
  cases d <;> cases d' <;> first | rfl | exact absurd rfl h

@[simp] theorem setEndpoint_tap (b : Backend) (d : Device) (e : Endpoint) :
    (b.setEndpoint d e).tap = b.tap := by cases d <;> rfl

@[simp] theorem setEndpoint_memory (b : Backend) (d : Device) (e : Endpoint) :
    (b.setEndpoint d e).memory = b.memory := by cases d <;> rfl

@[simp] theorem setEndpoint_memoryFd (b : Backend) (d : Device) (e : Endpoint) :
    (b.setEndpoint d e).memoryFd = b.memoryFd := by cases d <;> rfl

@[simp] theorem setEndpoint_region (b : Backend) (d : Device) (e : Endpoint) :
    (b.setEndpoint d e).region = b.region := by cases d <;> rfl

@[simp] theorem setEndpoint_token (b : Backend) (d : Device) (e : Endpoint) :
    (b.setEndpoint d e).token = b.token := by cases d <;> rfl

@[simp] theorem setEndpoint_managed (b : Backend) (d : Device) (e : Endpoint) :
    (b.setEndpoint d e).managed = b.managed := by cases d <;> rfl

@[simp] theorem setEndpoint_wwpn (b : Backend) (d : Device) (e : Endpoint) :
    (b.setEndpoint d e).wwpn = b.wwpn := by cases d <;> rfl

@[simp] theorem setEndpoint_self (b : Backend) (d : Device) :
    b.setEndpoint d (b.endpoint d) = b := by cases d <;> rfl

@[simp] theorem setEndpoint_setEndpoint (b : Backend) (d : Device) (e e' : Endpoint) :
    (b.setEndpoint d e).setEndpoint d e' = b.setEndpoint d e' := by cases d <;> rfl

/-- An endpoint that changes in one field changes that slot. -/
theorem slots_setEndpoint {b : Backend} {d : Device} {e : Endpoint} (field : Field)
    (h : ∀ f, f ≠ field → e.slots d f = (b.endpoint d).slots d f) :
    (b.setEndpoint d e).slots =
      Function.update b.slots (.endpoint d field) (e.slots d field) := by
  funext slot
  by_cases hslot : slot = .endpoint d field
  · subst hslot; simp [slots]
  · rw [Function.update_of_ne hslot]
    cases slot with
    | endpoint d' field' =>
      by_cases hd : d' = d
      · subst hd
        have hfield : field' ≠ field := fun hf => hslot (hf ▸ rfl)
        simpa [slots] using h field' hfield
      · simp only [slots, endpoint_setEndpoint_ne b e hd]
    | tap => simp [slots]
    | memory => simp [slots]

variable (b : Backend) (d : Device)

theorem slots_fd (fd : Option Fd) : (b.setEndpoint d { b.endpoint d with fd }).slots =
    Function.update b.slots (.endpoint d .vhost)
      (fd.map (·, .vhost d (b.endpoint d).attached)) :=
  slots_setEndpoint .vhost (by rintro (_ | _ | _ | _) hf <;> first | rfl | exact absurd rfl hf)

theorem slots_attached (attached : Bool) :
    (b.setEndpoint d { b.endpoint d with attached }).slots =
      Function.update b.slots (.endpoint d .vhost)
        ((b.endpoint d).fd.map (·, .vhost d attached)) :=
  slots_setEndpoint .vhost (by rintro (_ | _ | _ | _) hf <;> first | rfl | exact absurd rfl hf)

theorem slots_bound (bound : Bool) : (b.setEndpoint d { b.endpoint d with bound }).slots =
    Function.update b.slots (.endpoint d .route)
      ((b.endpoint d).notification.map (·, .route d bound)) :=
  slots_setEndpoint .route (by rintro (_ | _ | _ | _) hf <;> first | rfl | exact absurd rfl hf)

theorem slots_kick (i : Fin 6) (fd : Option Fd) :
    (b.setEndpoint d { b.endpoint d with
      kick := Function.update (b.endpoint d).kick i fd }).slots =
    Function.update b.slots (.endpoint d (.kick i)) (fd.map (·, .eventfd)) := by
  rw [slots_setEndpoint (.kick i)]
  · simp [Endpoint.slots]
  · rintro (_ | _ | j | _) hj <;> first
      | rfl
      | simp [Endpoint.slots, Function.update_of_ne (fun h => hj (h ▸ rfl) : j ≠ i)]

theorem slots_call (i : Fin 6) (fd : Option Fd) :
    (b.setEndpoint d { b.endpoint d with
      call := Function.update (b.endpoint d).call i fd }).slots =
    Function.update b.slots (.endpoint d (.call i)) (fd.map (·, .eventfd)) := by
  rw [slots_setEndpoint (.call i)]
  · simp [Endpoint.slots]
  · rintro (_ | _ | _ | j) hj <;> first
      | rfl
      | simp [Endpoint.slots, Function.update_of_ne (fun h => hj (h ▸ rfl) : j ≠ i)]

end Backend

/-- The descriptors that some slot has to record. -/
def Outside.held (k : Outside) (fd : Fd) : Option Object := (k.fds fd).filter (· ≠ .other)

/-- The slots, the mapping and the token account for everything Linux holds. -/
structure Owns (slots : Slot → Option (Fd × Object)) (mapping : Option (UInt64 × UInt64))
    (token : UInt64) (k : Outside) : Prop where
  fds : k.fresh = true → Tracks slots k.held
  maps : Tracks (fun _ : Unit => mapping) k.maps
  tokens : Tracks (fun _ : Unit => if token = 0 then none else some (token, ())) k.tokens

/-- The mapping a backend records: its address and the length of the region. -/
def Backend.mapping (b : Backend) : Option (UInt64 × UInt64) := b.memory.map (·, b.region.length)

/-- A backend accounts for everything Linux holds. -/
def Holds (b : Backend) (k : Outside) : Prop := Owns b.slots b.mapping b.token k

/-! ### Steps -/

namespace Outside

variable {k : Outside} {fd : Fd} {o : Object}

theorem held_eq (h : k.held fd = some o) : k.fds fd = some o :=
  (Option.filter_eq_some_iff.mp h).1

theorem held_of_ne_other (h : k.fds fd = some o) (ho : o ≠ .other) : k.held fd = some o := by
  simp [held, h, ho]

theorem held_of_none (h : k.fds fd = none) : k.held fd = none := by simp [held, h]

/-- When one descriptor changes, what is held changes there. -/
theorem held_of_update {k' : Outside} {v w : Option Object}
    (h : k'.fds = Function.update k.fds fd v) (hw : v.filter (· ≠ .other) = w) :
    k'.held = Function.update k.held fd w := by
  funext fd'
  unfold held
  rw [h]
  by_cases hfd : fd' = fd
  · subst hfd; rw [Function.update_self, Function.update_self, hw]
  · rw [Function.update_of_ne hfd, Function.update_of_ne hfd]

/-- A change between nothing and an object that is not held. -/
theorem held_of_update_other {k' : Outside} {v : Option Object}
    (h : k'.fds = Function.update k.fds fd v) (hv : v.filter (· ≠ .other) = none)
    (hk : k.held fd = none) : k'.held = k.held := by
  rw [held_of_update h hv, ← hk, Function.update_eq_self]

/-- An ioctl that changes no object changes no descriptor. -/
theorem ioctl_fds {command : Command} (h : ∀ o : Object, o.ioctl command = o) (k : Outside)
    (fd : Fd) : (k.ioctl fd command).fds = k.fds := by simp [ioctl, h]

/-- Only `HYPER_IO_QUIESCENT` retires a token. -/
theorem ioctl_tokens {command : Command} (h : ∀ t, command ≠ .quiescent t) {k : Outside}
    {fd : Fd} : (k.ioctl fd command).tokens = k.tokens := by
  cases command with
  | quiescent t => exact absurd rfl (h t)
  | _ => rfl

end Outside

namespace Owns

variable {slots : Slot → Option (Fd × Object)} {mapping : Option (UInt64 × UInt64)}
  {token : UInt64} {k : Outside} {s : Slot} {fd : Fd} {o : Object}

/-- A recorded descriptor stands for what its s says. -/
theorem live (h : Owns slots mapping token k) (hfresh : k.fresh = true)
    (hslot : slots s = some (fd, o)) : k.fds fd = some o :=
  Outside.held_eq ((h.fds hfresh).live s fd o hslot)

/-- What no s records, Linux does not hold. -/
theorem absent (h : Owns slots mapping token k) (hfresh : k.fresh = true) (ho : o ≠ .other)
    (hslots : ∀ s fd, slots s ≠ some (fd, o)) (fd : Fd) : k.fds fd ≠ some o := fun hfd =>
  (h.fds hfresh).table_ne hslots fd (Outside.held_of_ne_other hfd ho)

theorem acquire (h : Owns slots mapping token k) (hslot : slots s = none) (ho : o ≠ .other) :
    Owns (Function.update slots s (some (fd, o))) mapping token (k.acquire fd o) where
  fds hfresh := by
    simp only [Outside.acquire, Bool.and_eq_true, Option.isNone_iff_eq_none] at hfresh
    rw [Outside.held_of_update (k := k) rfl (w := some o) (by simp [ho])]
    exact (h.fds hfresh.1).acquire o hslot (Outside.held_of_none hfresh.2)
  maps := h.maps
  tokens := h.tokens

/-- A descriptor no s has to record. -/
theorem acquire_other (h : Owns slots mapping token k) :
    Owns slots mapping token (k.acquire fd .other) where
  fds hfresh := by
    simp only [Outside.acquire, Bool.and_eq_true, Option.isNone_iff_eq_none] at hfresh
    rw [Outside.held_of_update_other (k := k) rfl (by simp) (Outside.held_of_none hfresh.2)]
    exact h.fds hfresh.1
  maps := h.maps
  tokens := h.tokens

theorem release (h : Owns slots mapping token k) (hslot : slots s = some (fd, o)) :
    Owns (Function.update slots s none) mapping token (k.release fd) where
  fds hfresh := by
    rw [Outside.held_of_update (k := k) rfl (w := none) rfl]
    exact (h.fds hfresh).release hslot
  maps := h.maps
  tokens := h.tokens

theorem release_other (h : Owns slots mapping token k)
    (hfd : k.fresh = true → k.fds fd = some .other) :
    Owns slots mapping token (k.release fd) where
  fds hfresh := by
    rw [Outside.held_of_update_other (k := k) rfl rfl (by simp [Outside.held, hfd hfresh])]
    exact h.fds hfresh
  maps := h.maps
  tokens := h.tokens

/-- An ioctl that changes what a recorded descriptor stands for. -/
theorem ioctl (h : Owns slots mapping token k) {c : Command}
    (hslot : slots s = some (fd, o)) (ho : o.ioctl c ≠ .other)
    (htoken : ∀ t, c ≠ .quiescent t) :
    Owns (Function.update slots s (some (fd, o.ioctl c))) mapping token
      (k.ioctl fd c) where
  fds hfresh := by
    have hfd : (k.fds fd).map (·.ioctl c) = some (o.ioctl c) := by
      rw [h.live hfresh hslot]; rfl
    rw [Outside.held_of_update (k := k) rfl (w := some (o.ioctl c)) (by simp [hfd, ho])]
    exact (h.fds hfresh).change (o.ioctl c) hslot
  maps := h.maps
  tokens := by
    rw [Outside.ioctl_tokens htoken]
    exact h.tokens

end Owns

end HyperIoVm
