import HyperIoVm.Bindings
import HyperIoVm.Data.Steps

/-!
# The notification device over its life (`modules/io-bridge/hyper_io_bridge.c`)

A notification device is opened, bound, unbound, asked to admit and to retire, closed and removed,
in any order, and whatever the kernel refuses. Its operations run one after the other under
`bind_lock`; the removal first marks the device, and takes the lock later.
-/

namespace HyperIoVm

open Data Effects Routine Driver

/-! ## The device -/

/-- The commands of `notification_ioctl`. -/
inductive BridgeCommand where
  | bind (fds : Eventfds)
  | unbind
  | ioAdmit (grant : Admission)
  | extent (index : UInt64)
  | quiescent (token : UInt64)

/-- A command; whether it returns 0. -/
def BridgeCommand.run (d : Device) : BridgeCommand → Driver Bool
  | .bind fds => return (← notificationIoctl d (ioctlBind d fds)).isSome
  | .unbind => return (← notificationIoctl d (ioctlUnbind d)).isSome
  | .ioAdmit grant => return (← notificationIoctl d (ioctlAdmit d grant)).isSome
  | .extent index => return (← notificationIoctl d (ioctlExtent d index)).isSome
  | .quiescent token => return (← notificationIoctl d (ioctlQuiescent d token)).isSome

/-- `bridge_release` of a notification device. -/
def bridgeRelease (d : Device) : Driver Unit := do
  if !(← dead d) then HyperIoVm.unbind d

/-- The device with its file and its ledger: whether the file is open, whether `bridge_remove` is
done, and the descriptors of the last `BIND` that returned 0. `bridge->dead` is in the ledger. -/
structure BridgeNode where
  bridges : Bridges
  opened : Bool := false
  removed : Bool := false
  fds : Option Eventfds := none
  ledger : RefLedger := {}

/-- A notification device after `bridge_probe`. -/
def BridgeNode.probed (network : Bool) : BridgeNode where
  bridges _ := { network }

/-- What happens next: `die` and `remove` are the two parts of `bridge_remove`. -/
inductive BridgeAction where
  | openFile
  | ioctl (command : BridgeCommand)
  | close
  | die
  | remove

/-- The kernel's replies: `bridge->dead` and the context of a file are what they are, anything else
is as the environment wants it. -/
def kernelReplies (context : Nat → Nat) (dead : Bool) (env : Environment Bus) : Environment Bus :=
  fun past c =>
    match c with
    | .dead _ => dead
    | .eventfdCtxFileget file =>
      (env past (.eventfdCtxFileget file) : Option Nat).map fun _ => context file
    | c => env past c

namespace BridgeNode

variable (context : Nat → Nat) (env : Environment Bus)

/-- The ledger when an operation begins. -/
def entry (s : BridgeNode) : RefLedger := { s.ledger with read := fun _ => none }

/-- What an operation calls. -/
def calls {α : Type} (s : BridgeNode) (m : Driver α) : List (Event Bus) :=
  ((m.run s.bridges).exec (kernelReplies context s.ledger.dead env) []).2

/-- Run an operation. -/
def perform {α : Type} (s : BridgeNode) (m : Driver α) : α × BridgeNode :=
  let run := (m.run s.bridges).exec (kernelReplies context s.ledger.dead env) []
  (run.1.1, { s with
    bridges := run.1.2, ledger := (bindingLedger context).after s.entry run.2 })

/-- What an action runs. -/
def operation (d : Device) : BridgeAction → Driver Bool
  | .openFile | .die => pure true
  | .ioctl command => command.run d
  | .close => do
    bridgeRelease d
    return true
  | .remove => do
    unbind d
    return true

/-- One action. A device that is being removed is not opened again. -/
def step (d : Device) (s : BridgeNode) (a : BridgeAction × Environment Bus) : Option BridgeNode :=
  let (ok, s') := s.perform context a.2 (operation d a.1)
  match a.1 with
  | .openFile => if s.opened ∨ s.ledger.dead then none else some { s' with opened := true }
  | .ioctl (.bind fds) =>
    if s.opened then some (if ok then { s' with fds := some fds } else s') else none
  | .ioctl _ => if s.opened then some s' else none
  | .close => if s.opened then some { s' with opened := false } else none
  | .die =>
    if s.ledger.dead then none else some { s' with ledger := { s'.ledger with dead := true } }
  | .remove =>
    if s.ledger.dead ∧ ¬ s.removed then some { s' with removed := true } else none

end BridgeNode

/-! ## Commands -/

/-- A bridge between two operations. -/
structure AtRest (b : Bridge) (k : RefLedger) : Prop where
  balanced : RefsBalanced b k
  bound : b.bound = k.irq
  irqEnabled : b.irqEnabled = k.irq
  vacant : b.bound = false → ∀ i, b.Vacant i

theorem Unbound.atRest {b : Bridge} {k : RefLedger} (h : Unbound b k) : AtRest b k :=
  ⟨h.balanced, h.bound.trans h.irq.symm, h.irqEnabled.trans h.irq.symm, fun _ => h.vacant⟩

section Commands

variable {context : Nat → Nat} {d : Device} {s : Bridges} {k : RefLedger} {α β : Type}

/-- `m` leaves the bridge and the ledger as they are. -/
def Inert (context : Nat → Nat) (s : Bridges) (k : RefLedger) (m : Driver α) : Prop :=
  Keeps (bindingLedger context) (fun s' k' => s' = s ∧ k' = k) m

theorem inert_call {c : BusCall} (hallow : k.allows c) (hnext : ∀ r, k.next context c r = k) :
    Inert context s k (Driver.call c) := by
  refine keeps_perform (fun s' k' h => ?_) fun s' k' r h => ⟨h.1, ?_⟩
  · rw [h.2]
    exact hallow
  · rw [h.2]
    exact hnext r

theorem inert_pure (a : α) : Inert context s k (pure a) := keeps_pure a

theorem inert_bind {m : Driver α} {f : α → Driver β} (hm : Inert context s k m)
    (hf : ∀ a, Inert context s k (f a)) : Inert context s k (m >>= f) := keeps_bind hm hf

theorem inert_ite {p : Prop} [Decidable p] {m m' : Driver α} (h : Inert context s k m)
    (h' : Inert context s k m') : Inert context s k (if p then m else m') :=
  keeps_ite (fun _ => h) fun _ => h'

/-- The registers of tokens and extents can be written while nothing is bound. -/
theorem inert_writeq (hirq : k.irq = false) (hdead : k.dead = false) (offset : Nat)
    (value : UInt64) : Inert context s k (writeq d offset value) :=
  inert_call (c := .writeq d offset value) (fun _ => ⟨hirq, hdead⟩) fun _ => rfl

theorem inert_readq (offset : Nat) : Inert context s k (readq d offset) :=
  inert_call (c := .readq d offset) trivial fun _ => rfl

theorem inert_copyFromUser : Inert context s k copyFromUser :=
  inert_call (c := .copyFromUser) trivial fun _ => rfl

theorem inert_copyToUser : Inert context s k copyToUser :=
  inert_call (c := .copyToUser) trivial fun _ => rfl

/-- A command that is refused while the device is bound, and inert otherwise. -/
theorem refused_wp {m : Driver (Option α)} (hbound : (s d).bound = k.irq)
    (h : k.irq = false → Inert context s k m) :
    (do if ((← get) d).bound then return none else m : Driver (Option α)).wp
      (bindingLedger context) (fun _ s' k' => s' = s ∧ k' = k) s k := by
  rw [wp_bind, wp_get]
  refine wp_choice (fun _ => ⟨rfl, rfl⟩) fun hunbound => ?_
  rw [Bool.not_eq_true, hbound] at hunbound
  exact h hunbound s k ⟨rfl, rfl⟩

theorem ioctlAdmit_wp (hbound : (s d).bound = k.irq) (hdead : k.dead = false)
    (grant : Admission) : (ioctlAdmit d grant).wp (bindingLedger context)
      (fun _ s' k' => s' = s ∧ k' = k) s k := by
  refine refused_wp hbound fun hirq => ?_
  have hmatches : Inert context s k (grantMatches d grant) :=
    inert_bind (inert_readq _) fun _ => inert_ite (inert_pure _) <|
      inert_bind (inert_readq _) fun _ => inert_pure _
  have hreport : Inert context s k (reportGrant d grant) :=
    inert_bind (inert_readq _) fun _ => inert_ite (inert_pure _) <|
      inert_bind inert_copyToUser fun _ => inert_ite (inert_pure _) (inert_pure _)
  have hretire : Inert context s k (do writeq d 0x20 grant.token; return none) :=
    inert_bind (inert_writeq hirq hdead _ _) fun _ => inert_pure (none : Option UInt64)
  refine inert_bind inert_copyFromUser fun _ => inert_ite (inert_pure _) <|
    inert_ite (inert_pure _) <| inert_bind (inert_writeq hirq hdead _ _) fun _ =>
      inert_bind (inert_readq _) fun _ => inert_ite (inert_pure _) <|
        inert_bind hmatches fun _ => inert_ite hretire <| inert_bind hreport fun r => ?_
  cases r with
  | none => exact hretire
  | some extentCount => exact inert_pure _

theorem ioctlExtent_wp (hbound : (s d).bound = k.irq) (hdead : k.dead = false) (index : UInt64) :
    (ioctlExtent d index).wp (bindingLedger context) (fun _ s' k' => s' = s ∧ k' = k) s k := by
  refine refused_wp hbound fun hirq => ?_
  exact inert_bind inert_copyFromUser fun _ => inert_ite (inert_pure _) <|
    inert_bind (inert_writeq hirq hdead _ _) fun _ => inert_bind (inert_readq _) fun _ =>
      inert_ite (inert_pure _) <| inert_bind (inert_readq _) fun _ =>
        inert_bind (inert_readq _) fun _ => inert_bind (inert_readq _) fun _ =>
          inert_bind inert_copyToUser fun _ => inert_ite (inert_pure _) (inert_pure _)

theorem ioctlQuiescent_wp (hbound : (s d).bound = k.irq) (hdead : k.dead = false)
    (token : UInt64) : (ioctlQuiescent d token).wp (bindingLedger context)
      (fun _ s' k' => s' = s ∧ k' = k) s k := by
  refine refused_wp hbound fun hirq => ?_
  exact inert_bind inert_copyFromUser fun _ => inert_ite (inert_pure _) <|
    inert_ite (inert_pure _) <| inert_bind (inert_writeq hirq hdead _ _) fun _ => inert_pure _

theorem ioctlUnbind_wp (h : AtRest (s d) k) : (ioctlUnbind d).wp (bindingLedger context)
    (fun _ s' k' => Unbound (s' d) k' ∧ k'.dead = k.dead) s k := by
  rw [ioctlUnbind, wp_bind]
  exact unbind_wp h.balanced h.irqEnabled

/-- What `BIND` does. -/
structure BindSpec (fds : Eventfds) (b : Bridge) (k : RefLedger) (r : Option Unit) (b' : Bridge)
    (k' : RefLedger) : Prop where
  atRest : AtRest b' k'
  dead : k'.dead = k.dead
  alive : r = some () → k.dead = false
  refused : r = none → b'.bound = b.bound ∧ (b.bound = true → b' = b)
  bound : r = some () → b.bound = false ∧ b'.bound = true
  epoch : r = some () → fds.epoch ≠ 0 ∧ k'.read 0x08 = some fds.epoch ∧ k'.read 0x0c = some 0
  valid : r = some () → ∃ network, hyperIoEventfdsValid fds network = true
  fits : r = some () → ∀ i, b'.Fits fds i

/-- `BIND` is refused before it takes anything. -/
theorem BindSpec.none {fds : Eventfds} {b : Bridge} {k k' : RefLedger} (h : AtRest b k)
    (hirq : k'.irq = k.irq) (hdead : k'.dead = k.dead) (htaken : k'.taken = k.taken)
    (hdropped : k'.dropped = k.dropped) : BindSpec fds b k none b k' where
  atRest := by
    refine ⟨fun r => ?_, h.bound.trans hirq.symm, h.irqEnabled.trans hirq.symm, h.vacant⟩
    rw [htaken, hdropped]
    exact h.balanced r
  dead := hdead
  alive h := absurd h.symm (Option.some_ne_none _)
  refused _ := ⟨rfl, fun _ => rfl⟩
  bound h := absurd h.symm (Option.some_ne_none _)
  epoch h := absurd h.symm (Option.some_ne_none _)
  valid h := absurd h.symm (Option.some_ne_none _)
  fits h := absurd h.symm (Option.some_ne_none _)

/-- What `BIND` has taken is given back when a queue fails. -/
theorem BindSpec.undone {fds : Eventfds} {b b' : Bridge} {k k' : RefLedger}
    (hunbound : b.bound = false) (h : Unbound b' k') (hdead : k'.dead = k.dead) :
    BindSpec fds b k Option.none b' k' where
  atRest := h.atRest
  dead := hdead
  alive h := absurd h.symm (Option.some_ne_none _)
  refused _ := ⟨h.bound.trans hunbound.symm, fun hbound =>
    absurd (hunbound.symm.trans hbound) Bool.false_ne_true⟩
  bound h := absurd h.symm (Option.some_ne_none _)
  epoch h := absurd h.symm (Option.some_ne_none _)
  valid h := absurd h.symm (Option.some_ne_none _)
  fits h := absurd h.symm (Option.some_ne_none _)

/-- The end of `BIND`: the queues are bound, and then the interrupt is enabled; or they are not. -/
theorem ioctlBind_queues_wp {fds : Eventfds} {k₁ : RefLedger} (hdead : k.dead = false)
    (hepoch : fds.epoch ≠ 0) {network : Bool} (hvalid : hyperIoEventfdsValid fds network = true)
    (hkept : k₁.dead = k.dead ∧ k₁.read 0x08 = some fds.epoch ∧ k₁.read 0x0c = some 0)
    (hstart : BindingQueues fds k₁ (List.finRange 6) (s d) k₁) :
    (do
      if (← bindQueues d fds (List.finRange 6)) = .failed then
        HyperIoVm.unbind d
        return none
      modifyBridge d fun bridge => { bridge with bound := true, irqEnabled := true }
      enableIrq d
      return some () : Driver (Option Unit)).wp (bindingLedger context)
        (fun r s' k' => BindSpec fds (s d) k r (s' d) k') s k₁ := by
  rw [wp_bind]
  refine wp_mono (bindQueues_wp (List.nodup_finRange 6) hstart) fun r s' k' hpost => ?_
  obtain ⟨hbalanced, -, henabled, hirq, ⟨hdead', hread⟩, hfits⟩ := hpost
  refine wp_choice (fun _ => ?_) fun hok => ?_
  · -- a queue has failed
    rw [wp_bind]
    refine wp_mono (unbind_wp hbalanced (henabled.trans hirq.symm)) fun _ s₂ k₂ hpost => ?_
    exact .undone hstart.bound hpost.1 (hpost.2.trans (hdead'.trans hkept.1))
  · -- all queues are there: the device is bound, and its interrupt is enabled
    have hok : r = .ok := by
      cases r with
      | ok => rfl
      | failed => exact absurd rfl hok
    have hdead₁ : k'.dead = false := hdead'.trans (hkept.1.trans hdead)
    rw [wp_bind]
    refine wp_modifyBridge fun s₂ hs₂ => ?_
    rw [wp_bind]
    refine wp_busCall (c := .enableIrq d) ⟨hirq, hdead₁⟩ fun _ _ => ?_
    show BindSpec fds (s d) k (some ()) (s₂ d) { k' with irq := true }
    rw [hs₂]
    refine ⟨⟨hbalanced, rfl, rfl, fun hbound => Bool.noConfusion hbound⟩, hdead'.trans hkept.1,
      fun _ => hdead, fun hr => absurd hr (Option.some_ne_none _),
      fun _ => ⟨hstart.bound, rfl⟩, fun _ => ⟨hepoch, ?_, ?_⟩, fun _ => ⟨network, hvalid⟩,
      fun _ => hfits hok⟩
    · show k'.read 0x08 = some fds.epoch
      rw [hread]
      exact hkept.2.1
    · show k'.read 0x0c = some 0
      rw [hread]
      exact hkept.2.2

theorem ioctlBind_wp (h : AtRest (s d) k) (hdead : k.dead = false) (fds : Eventfds) :
    (ioctlBind d fds).wp (bindingLedger context)
      (fun r s' k' => BindSpec fds (s d) k r (s' d) k') s k := by
  rw [ioctlBind, wp_bind, wp_get]
  -- bound already
  refine wp_choice (fun _ => .none h rfl rfl rfl rfl) fun hunbound => ?_
  rw [Bool.not_eq_true] at hunbound
  rw [wp_bind]
  -- the descriptors
  refine wp_busCall (c := .copyFromUser) trivial fun (copied : Outcome) _ => ?_
  refine wp_choice (fun _ => .none h rfl rfl rfl rfl) fun _ => ?_
  -- the epoch, the reserved field and the descriptors
  refine wp_choice (fun _ => .none h rfl rfl rfl rfl) fun hchecks => ?_
  simp only [Bool.or_eq_true, not_or, beq_iff_eq, bne_iff_ne, ne_eq, Decidable.not_not,
    Bool.not_eq_true', Bool.not_eq_false] at hchecks
  obtain ⟨⟨hepoch, -⟩, hvalid⟩ := hchecks
  rw [wp_bind]
  -- the epoch of the device
  refine wp_busCall (c := .readl d 0x08) trivial fun (current : UInt32) _ => ?_
  refine wp_choice (fun _ => .none h rfl rfl rfl rfl) fun hcurrent => ?_
  rw [ne_eq, Decidable.not_not] at hcurrent
  rw [wp_bind]
  -- its gate
  refine wp_busCall (c := .readl d 0x0c) trivial fun (gate : UInt32) _ => ?_
  refine wp_choice (fun _ => .none h rfl rfl rfl rfl) fun hgate => ?_
  rw [ne_eq, Decidable.not_not] at hgate
  have hirq : k.irq = false := h.bound.symm.trans hunbound
  refine ioctlBind_queues_wp hdead hepoch hvalid ⟨rfl, congrArg some hcurrent,
    congrArg some hgate⟩ ?_
  exact ⟨h.balanced, hunbound, h.irqEnabled.trans hirq, hirq, ⟨rfl, rfl⟩,
    fun i _ => h.vacant hunbound i, fun i hi => absurd (List.mem_finRange i) hi⟩

/-- A command reaches the device only while it is not being removed. -/
theorem notificationIoctl_wp {m : Driver (Option α)} {Q : Option α → Bridges → RefLedger → Prop}
    (hrefused : Q none s k) (h : k.dead = false → m.wp (bindingLedger context) Q s k) :
    (notificationIoctl d m).wp (bindingLedger context) Q s k := by
  rw [notificationIoctl, wp_bind, wp_get]
  -- the mailbox has no such commands
  refine wp_choice (fun _ => hrefused) fun _ => ?_
  rw [wp_bind]
  -- nor has a device that is being removed
  refine wp_busCall (c := .dead d) trivial fun (dead : Bool) hdead => ?_
  refine wp_choice (fun _ => hrefused) fun halive => ?_
  rw [Bool.not_eq_true] at halive
  exact h (Eq.trans (Eq.symm hdead) halive)

/-- What a command does: the descriptors of a `BIND` that returns 0 fit, and any other command
leaves what is bound or binds nothing. -/
structure CommandSpec (command : BridgeCommand) (b : Bridge) (k : RefLedger) (ok : Bool)
    (b' : Bridge) (k' : RefLedger) : Prop where
  atRest : AtRest b' k'
  dead : k'.dead = k.dead
  bind : ∀ fds, command = .bind fds → BindSpec fds b k (if ok then some () else none) b' k'
  other : (∀ fds, command ≠ .bind fds) → b' = b ∨ b'.bound = false

theorem CommandSpec.of_inert {command : BridgeCommand} {b b' : Bridge} {k' : RefLedger} {ok : Bool}
    (h : AtRest b k) (hcommand : ∀ fds, command ≠ .bind fds) (hb : b' = b) (hk : k' = k) :
    CommandSpec command b k ok b' k' := by
  subst hb hk
  exact ⟨h, rfl, fun fds heq => absurd heq (hcommand fds), fun _ => .inl rfl⟩

theorem command_wp (h : AtRest (s d) k) (command : BridgeCommand) :
    (command.run d).wp (bindingLedger context)
      (fun ok s' k' => CommandSpec command (s d) k ok (s' d) k') s k := by
  cases command with
  | bind fds =>
    have hspec {r : Option Unit} {b' : Bridge} {k' : RefLedger}
        (hbind : BindSpec fds (s d) k r b' k') :
        CommandSpec (.bind fds) (s d) k r.isSome b' k' := by
      refine ⟨hbind.atRest, hbind.dead, fun fds' heq => ?_, fun hne => absurd rfl (hne fds)⟩
      obtain rfl := BridgeCommand.bind.inj heq
      cases r with
      | none => exact hbind
      | some u => exact hbind
    rw [BridgeCommand.run, wp_bind]
    exact notificationIoctl_wp (hspec (.none h rfl rfl rfl rfl)) fun hdead =>
      wp_mono (ioctlBind_wp h hdead fds) fun _ _ _ hpost => hspec hpost
  | unbind =>
    rw [BridgeCommand.run, wp_bind]
    refine notificationIoctl_wp (.of_inert h (fun _ => BridgeCommand.noConfusion) rfl rfl) fun _ =>
      wp_mono (ioctlUnbind_wp h) fun _ _ _ hpost => ?_
    exact ⟨hpost.1.atRest, hpost.2, fun _ heq => BridgeCommand.noConfusion heq,
      fun _ => .inr hpost.1.bound⟩
  | ioAdmit grant =>
    rw [BridgeCommand.run, wp_bind]
    refine notificationIoctl_wp (.of_inert h (fun _ => BridgeCommand.noConfusion) rfl rfl)
      fun hdead => wp_mono (ioctlAdmit_wp h.bound hdead grant) fun _ _ _ hpost => ?_
    exact .of_inert h (fun _ => BridgeCommand.noConfusion) (by rw [hpost.1]) hpost.2
  | extent index =>
    rw [BridgeCommand.run, wp_bind]
    refine notificationIoctl_wp (.of_inert h (fun _ => BridgeCommand.noConfusion) rfl rfl)
      fun hdead => wp_mono (ioctlExtent_wp h.bound hdead index) fun _ _ _ hpost => ?_
    exact .of_inert h (fun _ => BridgeCommand.noConfusion) (by rw [hpost.1]) hpost.2
  | quiescent token =>
    rw [BridgeCommand.run, wp_bind]
    refine notificationIoctl_wp (.of_inert h (fun _ => BridgeCommand.noConfusion) rfl rfl)
      fun hdead => wp_mono (ioctlQuiescent_wp h.bound hdead token) fun _ _ _ hpost => ?_
    exact .of_inert h (fun _ => BridgeCommand.noConfusion) (by rw [hpost.1]) hpost.2

/-- `bridge_release` unbinds unless the removal will. -/
theorem bridgeRelease_wp (h : AtRest (s d) k) :
    (bridgeRelease d).wp (bindingLedger context) (fun _ s' k' => AtRest (s' d) k' ∧
      k'.dead = k.dead ∧ (s' d = s d ∨ (s' d).bound = false) ∧
        (k.dead = false → (s' d).bound = false)) s k := by
  rw [bridgeRelease, wp_bind]
  refine wp_busCall (c := .dead d) trivial fun (dead : Bool) hdead => ?_
  rw [wp_ite]
  split
  next =>
    refine wp_mono (unbind_wp h.balanced h.irqEnabled) fun _ s' k' hpost => ?_
    exact ⟨hpost.1.atRest, hpost.2, .inr hpost.1.bound, fun _ => hpost.1.bound⟩
  next hdead' =>
    refine ⟨h, rfl, .inl rfl, fun halive => ?_⟩
    have hdead : dead = k.dead := hdead
    rw [hdead, halive] at hdead'
    exact absurd rfl hdead'

end Commands

/-! ## Operations -/

section Operations

variable {context : Nat → Nat} {env : Environment Bus} {d : Device} {s s' : BridgeNode} {α : Type}

/-- The kernel keeps its side. -/
theorem assumed_kernelReplies {p : Program Bus α} {k : RefLedger} {dead : Bool}
    (hk : k.dead = dead) (past : List (Event Bus)) :
    (bindingLedger context).Assumed k (p.exec (kernelReplies context dead env) past).2 := by
  induction p generalizing k past with
  | done a => trivial
  | call c next ih =>
    -- a reply does not change whether the device is dead
    have hdead (r : c.Reply) : (k.next context c r).dead = k.dead := by
      cases c with
      | eventfdCtxFdget fd =>
        cases r with
        | none => rfl
        | some event => rfl
      | eventfdFget fd =>
        cases r with
        | none => rfl
        | some file => rfl
      | eventfdCtxFileget file =>
        cases r with
        | none => rfl
        | some event => rfl
      | vfsPoll file =>
        show (if _ then _ else _ : RefLedger).dead = _
        split <;> rfl
      | _ => rfl
    rw [Program.exec_call]
    refine ⟨?_, ?_⟩
    · -- a read of `dead` tells the ledger's value, and a context is that of its file
      cases c with
      | dead d => exact hk.symm
      | eventfdCtxFileget file =>
        intro event hevent
        obtain ⟨_, -, rfl⟩ := Option.map_eq_some_iff.mp hevent
        rfl
      | _ => trivial
    · exact ih _ ((hdead _).trans hk) _

theorem BridgeNode.perform_spec (env : Environment Bus) {m : Driver α}
    {Q : α → Bridges → RefLedger → Prop}
    (h : m.wp (bindingLedger context) Q s.bridges s.entry) :
    (bindingLedger context).Obeyed s.entry (s.calls context env m) ∧
      Q (s.perform context env m).1 (s.perform context env m).2.bridges
        (s.perform context env m).2.ledger :=
  Program.wp_exec (kernelReplies context s.entry.dead env) [] h (assumed_kernelReplies rfl [])

/-- What holds of the device between its operations. -/
structure BridgeNode.Inv (d : Device) (s : BridgeNode) : Prop where
  atRest : AtRest (s.bridges d) s.ledger
  fits : (s.bridges d).bound = true → ∃ fds network, s.fds = some fds ∧
    hyperIoEventfdsValid fds network = true ∧ ∀ i, (s.bridges d).Fits fds i
  closed : s.opened = false → s.ledger.dead = false → (s.bridges d).bound = false
  removed : s.removed = true → s.ledger.dead = true ∧ (s.bridges d).bound = false

theorem BridgeNode.inv_probed (network : Bool) : (BridgeNode.probed network).Inv d where
  atRest := by
    have hvacant (i : Fin 6) : ((BridgeNode.probed network).bridges d).Vacant i :=
      ⟨rfl, rfl, rfl, rfl⟩
    exact ⟨fun r => (Bridge.refs_vacant hvacant r).symm, rfl, rfl, fun _ => hvacant⟩
  fits h := Bool.noConfusion h
  closed _ _ := rfl
  removed h := Bool.noConfusion h

/-- The ledger when an operation begins counts the same. -/
theorem BridgeNode.Inv.entry (h : s.Inv d) : AtRest (s.bridges d) s.entry :=
  ⟨h.atRest.balanced, h.atRest.bound, h.atRest.irqEnabled, h.atRest.vacant⟩

/-- Where a device is left unbound, or as it was. -/
theorem BridgeNode.Inv.fits_of (h : s.Inv d) {b' : Bridge}
    (hb : b' = s.bridges d ∨ b'.bound = false) (hbound : b'.bound = true) :
    ∃ fds network, s.fds = some fds ∧ hyperIoEventfdsValid fds network = true ∧
      ∀ i, b'.Fits fds i := by
  obtain rfl | hunbound := hb
  · exact h.fits hbound
  · exact absurd (hunbound.symm.trans hbound) Bool.false_ne_true

/-- What an operation leaves, where it binds nothing. -/
theorem BridgeNode.Inv.perform (h : s.Inv d) {m : Driver Bool} {b' : Bridge} {k' : RefLedger}
    (hbridges : (s.perform context env m).2.bridges d = b')
    (hledger : (s.perform context env m).2.ledger = k') (hrest : AtRest b' k')
    (hdead : k'.dead = s.ledger.dead) (hb : b' = s.bridges d ∨ b'.bound = false) :
    (s.perform context env m).2.Inv d where
  atRest := by
    rw [hbridges, hledger]
    exact hrest
  fits hbound := by
    rw [hbridges] at hbound ⊢
    exact h.fits_of hb hbound
  closed hopened halive := by
    rw [hledger, hdead] at halive
    rw [hbridges]
    obtain hsame | hunbound := hb
    · rw [hsame]
      exact h.closed hopened halive
    · exact hunbound
  removed hremoved := by
    rw [hbridges, hledger, hdead]
    obtain ⟨hgone, hempty⟩ := h.removed hremoved
    obtain hsame | hunbound := hb
    · exact ⟨hgone, hsame ▸ hempty⟩
    · exact ⟨hgone, hunbound⟩

/-- Every action keeps the invariant. -/
theorem BridgeNode.inv_step (h : s.Inv d) {a : BridgeAction × Environment Bus}
    (hstep : s.step context d a = some s') : s'.Inv d := by
  obtain ⟨action, env⟩ := a
  unfold step at hstep
  dsimp only at hstep
  cases action with
  | openFile =>
    dsimp only at hstep
    split at hstep
    -- it is open already
    next => cases hstep
    next =>
      obtain rfl := Option.some_inj.mp hstep
      exact ⟨h.entry, h.fits, fun hopened => Bool.noConfusion hopened, h.removed⟩
  | die =>
    dsimp only at hstep
    -- it is dead already
    split at hstep
    · cases hstep
    · obtain rfl := Option.some_inj.mp hstep
      have hrest := h.entry
      refine ⟨⟨hrest.balanced, hrest.bound, hrest.irqEnabled, hrest.vacant⟩, h.fits,
        fun _ halive => Bool.noConfusion halive, fun hremoved => ⟨rfl, (h.removed hremoved).2⟩⟩
  | close =>
    have hwp : (operation d .close).wp (bindingLedger context) (fun _ b' k' => AtRest (b' d) k' ∧
        k'.dead = s.entry.dead ∧ (b' d = s.bridges d ∨ (b' d).bound = false) ∧
          (s.entry.dead = false → (b' d).bound = false)) s.bridges s.entry :=
      (wp_bind _ _).mpr (bridgeRelease_wp h.entry)
    obtain ⟨hrest, hdead, hb, hunbound⟩ := (perform_spec env hwp).2
    dsimp only at hstep
    split at hstep
    · -- the last descriptor is closed: nothing is bound
      obtain rfl := Option.some_inj.mp hstep
      have hinv := h.perform rfl rfl hrest hdead hb
      exact ⟨hinv.atRest, hinv.fits, fun _ halive => hunbound (hdead.symm.trans halive),
        hinv.removed⟩
    · cases hstep
  | remove =>
    have hwp : (operation d .remove).wp (bindingLedger context)
        (fun _ b' k' => Unbound (b' d) k' ∧ k'.dead = s.entry.dead) s.bridges s.entry :=
      (wp_bind _ _).mpr (unbind_wp h.entry.balanced h.entry.irqEnabled)
    obtain ⟨hunbound, hdead⟩ := (perform_spec env hwp).2
    dsimp only at hstep
    split at hstep
    next hgone =>
      -- removal has unbound the device
      obtain rfl := Option.some_inj.mp hstep
      have hinv := h.perform rfl rfl hunbound.atRest hdead (.inr hunbound.bound)
      exact ⟨hinv.atRest, hinv.fits, hinv.closed, fun _ => ⟨hdead.trans hgone.1, hunbound.bound⟩⟩
    next => cases hstep
  | ioctl command =>
    have hspec := (perform_spec env (@command_wp context _ _ _ h.entry command)).2
    cases command with
    | bind fds =>
      have hbind := hspec.bind fds rfl
      dsimp only at hstep
      split at hstep
      next hopened =>
        obtain rfl := Option.some_inj.mp hstep
        split
        next hok =>
          -- bound
          have hok : (s.perform context env ((BridgeCommand.bind fds).run d)).1 = true := hok
          rw [hok] at hbind
          obtain ⟨network, hvalid⟩ := hbind.valid rfl
          refine ⟨hspec.atRest, fun _ => ⟨fds, network, rfl, hvalid, hbind.fits rfl⟩,
            fun hclosed => absurd (hopened.symm.trans hclosed) Bool.false_ne_true.symm,
            fun hremoved => ?_⟩
          exact absurd ((hbind.alive rfl).symm.trans (h.removed hremoved).1) Bool.false_ne_true
        next hfailed =>
          -- refused
          have hfailed : (s.perform context env ((BridgeCommand.bind fds).run d)).1 = false :=
            Bool.eq_false_iff.mpr hfailed
          rw [hfailed] at hbind
          obtain ⟨hsame, hkept⟩ := hbind.refused rfl
          refine h.perform rfl rfl hspec.atRest hspec.dead ?_
          cases hbound : (s.bridges d).bound with
          | true => exact .inl (hkept hbound)
          | false => exact .inr (hsame.trans hbound)
      next => cases hstep
    | _ =>
      dsimp only at hstep
      split at hstep
      · obtain rfl := Option.some_inj.mp hstep
        exact h.perform rfl rfl hspec.atRest hspec.dead
          (hspec.other fun _ => BridgeCommand.noConfusion)
      · cases hstep

/-- Every operation makes only the calls it may. -/
theorem BridgeNode.Inv.obeyed (h : s.Inv d) (env : Environment Bus) (action : BridgeAction) :
    (bindingLedger context).Obeyed s.entry (s.calls context env (operation d action)) := by
  have hpure : (pure true : Driver Bool).wp (bindingLedger context) (fun _ _ _ => True) s.bridges
      s.entry := trivial
  cases action with
  | openFile => exact (perform_spec env hpure).1
  | die => exact (perform_spec env hpure).1
  | ioctl command => exact (perform_spec env (command_wp h.entry command)).1
  | close =>
    have hwp : (operation d .close).wp (bindingLedger context) (fun _ b' k' => AtRest (b' d) k' ∧
        k'.dead = s.entry.dead ∧ (b' d = s.bridges d ∨ (b' d).bound = false) ∧
          (s.entry.dead = false → (b' d).bound = false)) s.bridges s.entry :=
      (wp_bind _ _).mpr (bridgeRelease_wp h.entry)
    exact (perform_spec env hwp).1
  | remove =>
    have hwp : (operation d .remove).wp (bindingLedger context)
        (fun _ b' k' => Unbound (b' d) k' ∧ k'.dead = s.entry.dead) s.bridges s.entry :=
      (wp_bind _ _).mpr (unbind_wp h.entry.balanced h.entry.irqEnabled)
    exact (perform_spec env hwp).1

end Operations

/-- The descriptors of a queue are present together. -/
theorem kick_present_iff {fds : Eventfds} {network : Bool}
    (h : hyperIoEventfdsValid fds network = true) (i : Fin 6) :
    fds.kick i = -1 ↔ fds.call i = -1 := by
  have hor {c a b : Bool} (h : (if c then a else b) = true) : a = true ∨ b = true := by
    cases c
    · exact .inr h
    · exact .inl h
  obtain habsent | hpresent := hor (List.all_eq_true.mp h i (List.mem_finRange i))
  · rw [Bool.and_eq_true, beq_iff_eq, beq_iff_eq] at habsent
    rw [habsent.1, habsent.2]
  · rw [Bool.and_eq_true, decide_eq_true_eq, decide_eq_true_eq] at hpresent
    omega

/-! ## Runs -/

/-- What a binding holds is accounted for. Whatever happens to a notification device, in any order
and with any acquisition failing: it is bound exactly when its interrupt is enabled; while it is not
bound it holds nothing, and while it is bound, all four of exactly the queues whose descriptors were
present; each reference is dropped as often as it was taken once the file is closed or the device
removed, and only while it is held; no token or extent register is written while it is bound or
after the removal; and `BIND` succeeds only with the device's own epoch, while its gate reads
zero. -/
theorem binding_resources {context : Nat → Nat} {d : Device} {network : Bool}
    {actions : List (BridgeAction × Environment Bus)} {s : BridgeNode}
    (h : runSteps (BridgeNode.step context d) (.probed network) actions = some s) :
    ((s.bridges d).bound = s.ledger.irq ∧ (s.bridges d).irqEnabled = s.ledger.irq) ∧
    ((s.bridges d).bound = false → ∀ i, (s.bridges d).Vacant i) ∧
    ((s.bridges d).bound = true → ∃ fds, s.fds = some fds ∧ ∀ i,
      (fds.kick i = -1 ↔ fds.call i = -1) ∧ (fds.kick i ≠ -1 → (s.bridges d).Full i) ∧
        (fds.kick i = -1 → (s.bridges d).Vacant i)) ∧
    (∀ r, s.ledger.taken r = s.ledger.dropped r + (s.bridges d).refs r) ∧
    (s.opened = false ∧ s.ledger.dead = false ∨ s.removed = true →
      ∀ r, s.ledger.taken r = s.ledger.dropped r) ∧
    (∀ env action, (bindingLedger context).Obeyed s.entry
      (s.calls context env (BridgeNode.operation d action))) ∧
    ∀ env fds, BindSpec fds (s.bridges d) s.entry
      (if (s.perform context env ((BridgeCommand.bind fds).run d)).1 then some () else none)
      ((s.perform context env ((BridgeCommand.bind fds).run d)).2.bridges d)
      (s.perform context env ((BridgeCommand.bind fds).run d)).2.ledger := by
  have hinv : s.Inv d :=
    runSteps_invariant (fun _ _ _ hs h => BridgeNode.inv_step hs h)
      (BridgeNode.inv_probed network) h
  refine ⟨⟨hinv.atRest.bound, hinv.atRest.irqEnabled⟩, hinv.atRest.vacant, fun hbound => ?_,
    hinv.atRest.balanced, fun hend r => ?_, hinv.obeyed, fun env fds => ?_⟩
  · -- each queue has both descriptors or none
    obtain ⟨fds, network, hfds, hvalid, hfits⟩ := hinv.fits hbound
    exact ⟨fds, hfds, fun i => ⟨kick_present_iff hvalid i, hfits i⟩⟩
  · -- nothing is bound: everything taken was dropped
    have hbound : (s.bridges d).bound = false := by
      obtain ⟨hclosed, halive⟩ | hremoved := hend
      · exact hinv.closed hclosed halive
      · exact (hinv.removed hremoved).2
    rw [hinv.atRest.balanced r, Bridge.refs_vacant (hinv.atRest.vacant hbound) r, Nat.add_zero]
  · -- what a bind does in this state
    exact (BridgeNode.perform_spec env (command_wp hinv.entry (.bind fds))).2.bind fds rfl

/-- A kernel that gives every reference to a device of epoch 1. -/
def bindHost : Environment Bus := fun _ c =>
  match c with
  | .linux c => c.refused
  | .dead _ => false
  | .copyFromUser | .copyToUser => Outcome.ok
  | .writeq _ _ _ | .eventfdCtxPut _ | .eventfdCtxRemoveWaitQueue _ | .fput _ | .enableIrq _
  | .disableIrq _ => ()
  | .readq _ _ | .eventfdCtxDoRead _ => (0 : UInt64)
  | .readl _ offset => (if offset = 0x08 then 1 else 0 : UInt32)
  | .eventfdCtxFdget fd => (some fd.toNat : Option Nat)
  | .eventfdFget fd => (some fd.toNat : Option Nat)
  | .eventfdCtxFileget file => (some file : Option Nat)
  | .vfsPoll _ => (⟨true, false⟩ : Poll)

/-- Descriptors for both queues of a network device. -/
def bothQueues : Eventfds where
  epoch := 1
  kick i := if i.val < 2 then 3 else -1
  call i := if i.val < 2 then 4 else -1

theorem binding_resources_bound :
    ∃ s, runSteps (BridgeNode.step id .network) (.probed true)
        [(.openFile, bindHost), (.ioctl (.bind bothQueues), bindHost)] = some s ∧
      (s.bridges .network).bound = true ∧
      ∀ r, s.ledger.taken r = s.ledger.dropped r + (s.bridges .network).refs r := by
  have hrun : (runSteps (BridgeNode.step id .network) (.probed true)
      [(.openFile, bindHost), (.ioctl (.bind bothQueues), bindHost)]).map
        (fun s => (s.bridges .network).bound) = some true := by decide +kernel
  obtain ⟨s, hs, hbound⟩ := Option.map_eq_some_iff.mp hrun
  exact ⟨s, hs, hbound, (binding_resources hs).2.2.2.1⟩

end HyperIoVm
