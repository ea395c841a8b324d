import HyperIoVm.Bridge
import HyperIoVm.Retirement

/-!
# The token ledger

The service over its notification driver. A ledger on the driver's registers records which
tokens the host admitted and how often each one was retired. Responsibility for a token moves
between two programs: the driver retires it when it cannot hand the grant over, the service
on every later failure and on release. The ledger shows that neither forgets a token and
neither retires one twice.
-/

namespace HyperIoVm

open Effects Routine

/-- What the registers of the notification routes have seen, and what Linux holds. -/
structure Ledger where
  outside : Outside
  /-- The value last written to the admission register of each route. -/
  written : Device → UInt64 := fun _ => 0
  admitted : UInt64 → Bool := fun _ => false
  /-- Writes of each token to the retirement register. -/
  retirements : UInt64 → Nat := fun _ => 0

namespace Ledger

/-- A token is admitted when the status register reads 0 after its admission write. -/
def next (l : Ledger) : (c : BusCall) → c.Reply → Ledger
  | .linux c, r => { l with outside := l.outside.next c r }
  | .writeq d offset value, _ =>
    if offset = 0x28 then { l with written := Function.update l.written d value }
    else if offset = 0x20 then
      { l with retirements := Function.update l.retirements value (l.retirements value + 1) }
    else l
  | .readq d offset, (r : UInt64) =>
    if offset = 0x40 ∧ r = 0 then
      { l with admitted := Function.update l.admitted (l.written d) true }
    else l
  | _, _ => l

/-- A retirement write is for a token that was admitted and not yet retired, at a time when
nothing of the guest's memory is mapped or open. -/
def allows (l : Ledger) : BusCall → Prop
  | .writeq _ offset value =>
    offset = 0x20 → l.admitted value = true ∧ l.retirements value = 0 ∧ l.outside.Free
  | _ => True

/-- The host admits a token at most once. -/
def assumes (l : Ledger) : (c : BusCall) → c.Reply → Prop
  | .readq d offset, (r : UInt64) => offset = 0x40 → r = 0 → l.admitted (l.written d) = false
  | _, _ => True

end Ledger

/-- The contract of the registers: the program retires only what it may, the host admits a
token at most once. -/
def ledger : Contract Bus Ledger where
  allows := Ledger.allows
  assumes := Ledger.assumes
  next := Ledger.next

instance Ledger.decidableAssumes (l : Ledger) :
    (c : BusCall) → (r : c.Reply) → Decidable (l.assumes c r)
  | .readq d offset, (r : UInt64) =>
    inferInstanceAs (Decidable (offset = 0x40 → r = 0 → l.admitted (l.written d) = false))
  | .linux _, _ | .dead _, _ | .copyFromUser, _ | .copyToUser, _ | .writeq _ _ _, _
  | .readl _ _, _ | .eventfdCtxFdget _, _ | .eventfdFget _, _ | .eventfdCtxFileget _, _
  | .eventfdCtxPut _, _ | .eventfdCtxRemoveWaitQueue _, _ | .eventfdCtxDoRead _, _ | .fput _, _
  | .vfsPoll _, _ | .enableIrq _, _ | .disableIrq _, _ => inferInstanceAs (Decidable True)

instance (l : Ledger) (c : Bus.Call) (r : Bus.Reply c) : Decidable (ledger.assumes l c r) :=
  l.decidableAssumes c r

/-! ## The relation to what the service sees -/

/-- The object with a notification route's binding forgotten, which the driver keeps. -/
def Object.unbound : Object → Object
  | .route d _ => .route d false
  | o => o

theorem Object.unbound_ioctl (o : Object) (command : Command) :
    (o.ioctl command).unbound = (o.unbound.ioctl command).unbound := by
  cases o <;> cases command <;> rfl

/-- Two views of Linux that agree up to the binding of routes and up to the tokens. -/
structure Outside.Alike (o k : Outside) : Prop where
  fresh : o.fresh = k.fresh
  maps : o.maps = k.maps
  fds : ∀ fd, (o.fds fd).map Object.unbound = (k.fds fd).map Object.unbound

namespace Outside.Alike

variable {o k : Outside}

theorem refl (o : Outside) : o.Alike o := ⟨rfl, rfl, fun _ => rfl⟩

theorem free (h : o.Alike k) (hk : k.Free) : o.Free where
  maps := by rw [h.maps]; exact hk.maps
  memory hfresh fd released hfd := by
    have hmemory : (k.fds fd).map Object.unbound = some (.memory released) := by
      rw [← h.fds, hfd]; rfl
    obtain ⟨object, hobject, hunbound⟩ := Option.map_eq_some_iff.mp hmemory
    cases object with
    | memory released' => exact hk.memory (h.fresh ▸ hfresh) fd released' hobject
    | _ => cases hunbound

theorem update (h : o.Alike k) (fd : Fd) (object : Option Object) (fd' : Fd) :
    (Function.update o.fds fd object fd').map Object.unbound =
      (Function.update k.fds fd object fd').map Object.unbound := by
  by_cases hfd : fd' = fd
  · subst hfd; rw [Function.update_self, Function.update_self]
  · rw [Function.update_of_ne hfd, Function.update_of_ne hfd]; exact h.fds fd'

theorem acquire (h : o.Alike k) (fd : Fd) (object : Object) :
    (o.acquire fd object).Alike (k.acquire fd object) where
  fresh := by
    have hnone : (o.fds fd).isNone = (k.fds fd).isNone := by
      simpa using congrArg Option.isNone (h.fds fd)
    simp only [Outside.acquire, h.fresh, hnone]
  maps := h.maps
  fds := h.update fd (some object)

theorem ioctl (h : o.Alike k) (fd : Fd) (command : Command) :
    (o.ioctl fd command).Alike (k.ioctl fd command) where
  fresh := h.fresh
  maps := h.maps
  fds fd' := by
    by_cases hfd : fd' = fd
    · subst hfd
      have hmap (object : Option Object) : (object.map (·.ioctl command)).map Object.unbound =
          (object.map Object.unbound).map fun o => (o.ioctl command).unbound := by
        cases object with
        | none => rfl
        | some object => exact congrArg some (object.unbound_ioctl command)
      simp only [Outside.ioctl, Function.update_self, hmap, h.fds]
    · simp only [Outside.ioctl, Function.update_of_ne hfd]
      exact h.fds fd'

/-- A binding of a route is not seen by both. -/
theorem ioctl_route (h : o.Alike k) (fd : Fd) {command : Command}
    (hcommand : ∀ object : Object, (object.ioctl command).unbound = object.unbound) :
    o.Alike (k.ioctl fd command) where
  fresh := h.fresh
  maps := h.maps
  fds fd' := by
    by_cases hfd : fd' = fd
    · subst hfd
      rw [h.fds]
      cases hobject : k.fds fd' with
      | none => simp [Outside.ioctl, hobject]
      | some object => simp [Outside.ioctl, hobject, hcommand]
    · simp only [Outside.ioctl, Function.update_of_ne hfd]
      exact h.fds fd'

/-- A call that Linux answers itself changes both views alike. -/
theorem next (h : o.Alike k) (c : Call) (r : c.Reply) : (o.next c r).Alike (k.next c r) := by
  cases c with
  | openNode node =>
    cases r with
    | error _ => exact h
    | ok fd => exact h.acquire fd node.object
  | eventfd =>
    cases r with
    | none => exact h
    | some fd => exact h.acquire fd .eventfd
  | socket =>
    cases r with
    | none => exact h
    | some fd => exact h.acquire fd .other
  | close fd => exact ⟨h.fresh, h.maps, h.update fd none⟩
  | ioctl fd command =>
    cases r with
    | failed => exact h
    | ok => exact h.ioctl fd command
  | mmap fd length =>
    cases r with
    | none => exact h
    | some address => exact ⟨h.fresh, by simp only [Outside.next, h.maps], h.fds⟩
  | munmap address length =>
    cases r with
    | failed => exact h
    | ok => exact ⟨h.fresh, by simp only [Outside.next, h.maps], h.fds⟩
  | ioAdmit fd grant =>
    cases r with
    | none => exact h
    | some _ => exact ⟨h.fresh, h.maps, h.fds⟩
  -- the other calls leave the descriptors alone
  | _ => exact h

end Outside.Alike

/-- The service's view of Linux and the ledger agree on every token. -/
structure Agrees (k : Outside) (l : Ledger) : Prop where
  alike : l.outside.Alike k
  tokens : ∀ token, k.tokens token = some () ↔ l.admitted token = true ∧ l.retirements token = 0
  once : ∀ token, l.retirements token ≤ 1
  never : ∀ token, l.admitted token = false → l.retirements token = 0
  zero : l.admitted 0 = false

namespace Agrees

variable {k : Outside} {l : Ledger}

/-- A step that concerns no token. -/
theorem step (h : Agrees k l) {k' : Outside} {o : Outside} (halike : o.Alike k')
    (htokens : k'.tokens = k.tokens) : Agrees k' { l with outside := o } :=
  ⟨halike, fun token => htokens ▸ h.tokens token, h.once, h.never, h.zero⟩

theorem passed (h : Agrees k l) {c : Call} (r : c.Reply)
    (hadmission : ∀ fd grant, c ≠ .ioAdmit fd grant)
    (hquiescent : ∀ fd token, c ≠ .ioctl fd (.quiescent token)) :
    Agrees (k.next c r) { l with outside := l.outside.next c r } := by
  refine h.step (h.alike.next c r) ?_
  cases c with
  | ioAdmit fd grant => exact absurd rfl (hadmission fd grant)
  | ioctl fd command =>
    cases r with
    | failed => rfl
    | ok => exact Outside.ioctl_tokens fun token htoken => hquiescent fd token (htoken ▸ rfl)
  | openNode node => cases r <;> rfl
  | eventfd => cases r <;> rfl
  | socket => cases r <;> rfl
  | mmap fd length => cases r <;> rfl
  | munmap address length => cases r <;> rfl
  | _ => rfl

/-- The host admits a token, which it never did before. -/
theorem ioAdmit (h : Agrees k l) {token : UInt64} (hnew : l.admitted token = false)
    (htoken : token ≠ 0) (written : Device → UInt64) :
    Agrees { k with tokens := Function.update k.tokens token (some ()) }
      { l with written, admitted := Function.update l.admitted token true } where
  alike := ⟨h.alike.fresh, h.alike.maps, h.alike.fds⟩
  tokens token' := by
    by_cases ht : token' = token
    · subst ht; simp [h.never token' hnew]
    · simpa [Function.update_of_ne ht] using h.tokens token'
  once := h.once
  never token' hnever := by
    by_cases ht : token' = token
    · subst ht; simp at hnever
    · exact h.never token' (by simpa [Function.update_of_ne ht] using hnever)
  zero := by
    show Function.update l.admitted token true 0 = false
    rw [Function.update_of_ne htoken.symm]
    exact h.zero

/-- An admitted token is retired. -/
theorem retire (h : Agrees k l) {token : UInt64} (hadmitted : l.admitted token = true)
    (hheld : l.retirements token = 0) {k' : Outside} (hk : l.outside.Alike k')
    (htokens : k'.tokens = Function.update k.tokens token none) :
    Agrees k' { l with
      retirements := Function.update l.retirements token (l.retirements token + 1) } where
  alike := hk
  tokens token' := by
    rw [htokens]
    by_cases ht : token' = token
    · subst ht; simp
    · simpa [Function.update_of_ne ht] using h.tokens token'
  once token' := by
    by_cases ht : token' = token
    · subst ht; simp [hheld]
    · simpa [Function.update_of_ne ht] using h.once token'
  never token' hnever := by
    by_cases ht : token' = token
    · subst ht; rw [hadmitted] at hnever; cases hnever
    · simpa [Function.update_of_ne ht] using h.never token' hnever
  zero := h.zero

end Agrees

/-! ## Driver code that touches no token -/

/-- Calls that neither reach Linux nor touch a token register. -/
def BusCall.idle : BusCall → Bool
  | .linux _ => false
  | .writeq _ offset _ => offset != 0x28 && offset != 0x20
  | .readq _ offset => offset != 0x40
  | _ => true

/-- `m` makes idle calls only. -/
def Idle {α : Type} (m : Driver α) : Prop :=
  Keeps (.only fun c => BusCall.idle c = true) (fun _ _ => True) m

namespace Idle

variable {α β : Type} {m : Driver α} {f : α → Driver β}

theorem pure (a : α) : Idle (Pure.pure a : Driver α) := keeps_pure a

theorem bind (hm : Idle m) (hf : ∀ a, Idle (f a)) : Idle (m >>= f) := keeps_bind hm hf

theorem ite {p : Prop} [Decidable p] {m' : Driver α} (h : Idle m) (h' : Idle m') :
    Idle (if p then m else m') := keeps_ite (fun _ => h) fun _ => h'

theorem get : Idle (MonadState.get : Driver Bridges) := keeps_get

theorem call {c : BusCall} (h : c.idle = true) : Idle (Driver.call c) :=
  keeps_perform (fun _ _ _ => h) fun _ _ _ _ => trivial

theorem modify (f : Bridges → Bridges) : Idle (modify f : Driver PUnit) :=
  keeps_modify fun _ _ h => h

theorem forM {ι : Type} {l : List ι} {f : ι → Driver PUnit} (h : ∀ i, Idle (f i)) :
    Idle (forM l f) := keeps_forM h

theorem ifHeld (held : Option Nat) {f : Nat → Driver Unit} (h : ∀ x, Idle (f x)) :
    Idle (Driver.ifHeld held f) := by
  cases held with
  | none => exact pure _
  | some x => exact h x

/-- Idle code leaves the ledger alone. -/
theorem wp (h : Idle m) (bridges : Bridges) (l : Ledger) :
    m.wp ledger (fun _ _ l' => l' = l) bridges l := by
  refine wp_mono (wp_of_only (Q := fun _ _ => True) (h bridges () trivial) ?_ ?_)
    fun _ _ _ hpost => hpost.1
  · intro c hc
    cases c with
    | writeq d offset value =>
      simp only [BusCall.idle, Bool.and_eq_true, bne_iff_ne] at hc
      exact fun hoffset => absurd hoffset hc.2
    | _ => trivial
  · intro c r hc
    cases c with
    | linux c => cases hc
    | writeq d offset value =>
      simp only [BusCall.idle, Bool.and_eq_true, bne_iff_ne] at hc
      show (if _ then _ else _) = l
      rw [if_neg hc.1, if_neg hc.2]
    | readq d offset =>
      have hoffset : offset ≠ 0x40 := by simpa [BusCall.idle] using hc
      exact if_neg fun h => hoffset h.1
    | _ => rfl

end Idle

theorem unbind_idle (d : Device) : Idle (unbind d) := by
  have hqueue (i : Fin 6) : Idle (unbindQueue d i) :=
    .bind .get fun _ => .bind (.ifHeld _ fun _ => .call rfl) fun _ =>
      .bind (.ifHeld _ fun _ => .call rfl) fun _ => .bind (.ifHeld _ fun _ => .call rfl) fun _ =>
        .bind (.ifHeld _ fun _ => .call rfl) fun _ => .bind (.modify _) fun _ => .modify _
  have hirq : Idle (silenceIrq d) :=
    .bind .get fun _ => .ite (.bind (.call rfl) fun _ => .modify _) (.pure _)
  exact .bind hirq fun _ => .bind (.forM hqueue) fun _ => .modify _

theorem bindQueue_idle (d : Device) (fds : Eventfds) (i : Fin 6) : Idle (bindQueue d fds i) := by
  have hnotify (event : Nat) (epoch : UInt32) : Idle (notifyCall d event epoch) :=
    .bind (.call rfl) fun _ => .ite (.call rfl) (.pure _)
  have hcall : Idle (bindCall d fds i) := by
    refine .bind (.call rfl) fun r => ?_
    rcases r with _ | file
    · exact .pure _
    refine .bind (.modify _) fun _ => .bind (.call rfl) fun r => ?_
    rcases r with _ | event
    · exact .pure _
    exact .bind (.modify _) fun _ => .bind (.call rfl) fun _ => .bind (.modify _) fun _ =>
      .ite (.pure _) <| .bind (.ite (hnotify _ _) (.pure _)) fun _ => .pure _
  refine .ite (.pure _) <| .bind (.call rfl) fun r => ?_
  rcases r with _ | kick
  · exact .pure _
  · exact .bind (.modify _) fun _ => hcall

theorem ioctlBind_idle (d : Device) (fds : Eventfds) : Idle (ioctlBind d fds) := by
  have hqueues (is : List (Fin 6)) : Idle (bindQueues d fds is) := by
    induction is with
    | nil => exact .pure _
    | cons i is ih => exact .bind (bindQueue_idle d fds i) fun _ => .ite (.pure _) ih
  exact .bind .get fun _ => .ite (.pure _) <| .bind (.call rfl) fun _ => .ite (.pure _) <|
    .ite (.pure _) <| .bind (.call rfl) fun _ => .ite (.pure _) <| .bind (.call rfl) fun _ =>
      .ite (.pure _) <| .bind (hqueues _) fun _ =>
        .ite (.bind (unbind_idle d) fun _ => .pure _) <| .bind (.modify _) fun _ =>
          .bind (.call rfl) fun _ => .pure _

theorem ioctlExtent_idle (d : Device) (index : UInt64) : Idle (ioctlExtent d index) :=
  .bind .get fun _ => .ite (.pure _) <| .bind (.call rfl) fun _ => .ite (.pure _) <|
    .bind (.call rfl) fun _ => .bind (.call rfl) fun _ => .ite (.pure _) <|
      .bind (.call rfl) fun _ => .bind (.call rfl) fun _ => .bind (.call rfl) fun _ =>
        .bind (.call rfl) fun _ => .ite (.pure _) (.pure _)

theorem notificationIoctl_idle {α : Type} (d : Device) {command : Driver (Option α)}
    (h : Idle command) : Idle (notificationIoctl d command) :=
  .bind .get fun _ => .ite (.pure _) <| .bind (.call rfl) fun _ => .ite (.pure _) h

theorem copyFromUser_idle : Idle Driver.copyFromUser := .call rfl

theorem grantMatches_idle (d : Device) (grant : Admission) : Idle (grantMatches d grant) :=
  .bind (.call rfl) fun _ => .ite (.pure _) <| .bind (.call rfl) fun _ => .pure _

theorem reportGrant_idle (d : Device) (grant : Admission) : Idle (reportGrant d grant) :=
  .bind (.call rfl) fun _ => .ite (.pure _) <| .bind (.call rfl) fun _ => .ite (.pure _) (.pure _)

/-! ## The commands that move tokens -/

section Commands

variable {α : Type} {k : Outside} {l : Ledger} {bridges : Bridges}

/-- An idle step of a command. -/
theorem Idle.wp_step {β : Type} {m : Driver α} (hm : Idle m) {f : α → Driver β}
    {Q : β → Bridges → Ledger → Prop} (h : ∀ a bridges, (f a).wp ledger Q bridges l) :
    (m >>= f).wp ledger Q bridges l := by
  rw [wp_bind]
  refine wp_mono (hm.wp bridges l) ?_
  rintro a bridges' l' rfl
  exact h a bridges'

/-- A write to the retirement register. -/
theorem wp_retire {d : Device} {token : UInt64} {β : Type} {f : Unit → Driver β}
    {Q : β → Bridges → Ledger → Prop} (hadmitted : l.admitted token = true)
    (hheld : l.retirements token = 0) (hfree : l.outside.Free)
    (h : (f ()).wp ledger Q bridges { l with
      retirements := Function.update l.retirements token (l.retirements token + 1) }) :
    (Driver.writeq d 0x20 token >>= f).wp ledger Q bridges l := by
  rw [wp_bind]
  exact ⟨fun _ => ⟨hadmitted, hheld, hfree⟩, fun _ _ => h⟩

/-- An admission write and the status it is answered with. -/
theorem wp_admit {d : Device} {token : UInt64} {β : Type} {f : UInt64 → Driver β}
    {Q : β → Bridges → Ledger → Prop}
    (hrefused : ∀ status, status ≠ 0 → (f status).wp ledger Q bridges
      { l with written := Function.update l.written d token })
    (hadmitted : l.admitted token = false → (f 0).wp ledger Q bridges { l with
      written := Function.update l.written d token
      admitted := Function.update l.admitted token true }) :
    (Driver.writeq d 0x28 token >>= fun _ => Driver.readq d 0x40 >>= f).wp ledger Q bridges l := by
  rw [wp_bind]
  refine ⟨fun hoffset => absurd hoffset (by decide), fun _ _ => (wp_bind _ _).mpr ⟨trivial, ?_⟩⟩
  intro (status : UInt64) hstatus
  have hwritten : Function.update l.written d token d = token := Function.update_self ..
  show (f status).wp ledger Q bridges
    (ledger.next { l with written := Function.update l.written d token } (.readq d 0x40) status)
  -- the device admits a token only once
  by_cases hzero : status = 0
  · subst hzero
    have hnew : l.admitted (Function.update l.written d token d) = false := hstatus rfl rfl
    rw [hwritten] at hnew
    have hnext : ledger.next { l with written := Function.update l.written d token }
        (.readq d 0x40) (0 : UInt64) = { l with
          written := Function.update l.written d token
          admitted := Function.update l.admitted (Function.update l.written d token d) true } := by
      simp [ledger, Ledger.next]
    rw [hnext, hwritten]
    exact hadmitted hnew
  · -- it has refused the token
    have hnext : ledger.next { l with written := Function.update l.written d token }
        (.readq d 0x40) status = { l with written := Function.update l.written d token } :=
      if_neg fun h => hzero h.2
    rw [hnext]
    exact hrefused status hzero

/-- `HYPER_IO_ADMIT`: the service is handed a token that was admitted, or none; a token that was
admitted and not handed over is retired. -/
theorem ioctlAdmit_ledger (d : Device) (grant : Admission) (h : Agrees k l) (hfree : k.Free) :
    (ioctlAdmit d grant).wp ledger (fun r _ l' => (r = none → Agrees k l') ∧
      (∀ n, r = some n →
        Agrees { k with tokens := Function.update k.tokens grant.token (some ()) } l'))
      bridges l := by
  unfold ioctlAdmit
  rw [wp_bind, wp_get, wp_ite]
  split
  · -- a bound device admits nothing
    exact ⟨fun _ => h, by simp⟩
  refine copyFromUser_idle.wp_step fun copied bridges => ?_
  rw [wp_ite]
  split
  · -- the request cannot be copied
    exact ⟨fun _ => h, by simp⟩
  rw [wp_ite]
  split
  · -- the token is zero
    exact ⟨fun _ => h, by simp⟩
  rename_i htoken
  refine wp_admit (fun status hstatus => ?_) fun hnew => ?_
  · -- the device refuses it
    rw [wp_ite, if_pos hstatus]
    exact ⟨fun _ => ⟨h.alike, h.tokens, h.once, h.never, h.zero⟩, by simp⟩
  have hadmission := h.ioAdmit hnew htoken (Function.update l.written d grant.token)
  have hheld : l.retirements grant.token = 0 := h.never _ hnew
  -- a grant that is not handed over is retired at once
  have hretire (bridges : Bridges) :
      (Driver.writeq d 0x20 grant.token >>= fun _ => pure (none : Option UInt64)).wp
      ledger (fun r _ l' => (r = none → Agrees k l') ∧ (∀ n, r = some n →
        Agrees { k with tokens := Function.update k.tokens grant.token (some ()) } l')) bridges
      { l with
        written := Function.update l.written d grant.token
        admitted := Function.update l.admitted grant.token true } := by
    refine wp_retire (Function.update_self ..) hheld (h.alike.free hfree) ⟨fun _ => ?_, by simp⟩
    refine hadmission.retire (Function.update_self ..) hheld h.alike ?_
    have hnone : k.tokens grant.token = none := by
      cases htokens : k.tokens grant.token with
      | none => rfl
      | some _ =>
        rw [((h.tokens grant.token).mp htokens).1] at hnew
        cases hnew
    rw [Function.update_idem, ← hnone, Function.update_eq_self]
  rw [wp_ite, if_neg (by decide)]
  refine (grantMatches_idle d grant).wp_step fun matching bridges => ?_
  rw [wp_ite]
  split
  · -- the grant is not the one that was asked for
    exact hretire bridges
  refine (reportGrant_idle d grant).wp_step fun reported bridges => ?_
  cases reported with
  -- it could not be reported
  | none => exact hretire bridges
  -- it is handed over, and its holder has to retire it
  | some extentCount => exact ⟨by simp, fun _ _ => hadmission⟩

/-- `HYPER_IO_QUIESCENT`: the token is retired, or the command fails. -/
theorem ioctlQuiescent_ledger (d : Device) {token : UInt64} (h : Agrees k l) (hfree : k.Free)
    (htoken : k.tokens token = some ()) :
    (ioctlQuiescent d token).wp ledger (fun r _ l' => (r = none → Agrees k l') ∧
      (r = some () → Agrees { k with tokens := Function.update k.tokens token none } l'))
      bridges l := by
  obtain ⟨hadmitted, hheld⟩ := (h.tokens token).mp htoken
  unfold ioctlQuiescent
  rw [wp_bind, wp_get, wp_ite]
  split
  · exact ⟨fun _ => h, by simp⟩
  refine copyFromUser_idle.wp_step fun copied bridges => ?_
  rw [wp_ite]
  split
  · exact ⟨fun _ => h, by simp⟩
  rw [wp_ite]
  split
  · exact ⟨fun _ => h, by simp⟩
  refine wp_retire hadmitted hheld (h.alike.free hfree) ⟨by simp, fun _ => ?_⟩
  exact h.retire hadmitted hheld ⟨h.alike.fresh, h.alike.maps, h.alike.fds⟩ rfl

end Commands

/-- What every command begins with touches no token. -/
theorem wp_notificationIoctl {α : Type} (d : Device) {command : Driver (Option α)}
    {Q : Option α → Bridges → Ledger → Prop} {bridges : Bridges} {l : Ledger}
    (hnone : ∀ bridges, Q none bridges l) (h : ∀ bridges, command.wp ledger Q bridges l) :
    (notificationIoctl d command).wp ledger Q bridges l := by
  unfold notificationIoctl
  rw [wp_bind, wp_get, wp_ite]
  split
  · exact hnone bridges
  have hdead : Idle (Driver.dead d) := .call rfl
  refine hdead.wp_step fun dead bridges => ?_
  rw [wp_ite]
  split
  · exact hnone bridges
  · exact h bridges

/-- A command that succeeds or fails is seen by the service as the ioctl that Linux answered. -/
theorem notificationCommand_ledger (d : Device) (fd : Fd) (command : Command) {k : Outside}
    {bridges : Bridges} {l : Ledger} (h : Agrees k l)
    (hallow : linux.allows k (.ioctl fd command)) :
    (notificationCommand d command).wp ledger (fun r _ l' =>
      Agrees (k.next (.ioctl fd command) r) l') bridges l := by
  -- binding is the driver's own business
  have hidle (m : Driver (Option Unit)) (hm : Idle m)
      (hcommand : ∀ object : Object, (object.ioctl command).unbound = object.unbound)
      (htoken : ∀ token, command ≠ .quiescent token) :
      (do return outcome (← notificationIoctl d m) : Driver Outcome).wp ledger (fun r _ l' =>
        Agrees (k.next (.ioctl fd command) r) l') bridges l := by
    rw [wp_bind]
    refine wp_mono ((notificationIoctl_idle d hm).wp bridges l) ?_
    rintro r _ _ rfl
    cases r with
    | none => exact h
    | some _ => exact h.step (h.alike.ioctl_route fd hcommand) (Outside.ioctl_tokens htoken)
  cases command with
  | bind fds =>
    exact hidle _ (ioctlBind_idle d fds) (fun object => by cases object <;> rfl) (by simp)
  | unbind =>
    exact hidle _ (.bind (unbind_idle d) fun _ => .pure _) (fun object => by cases object <;> rfl)
      (by simp)
  -- the token is retired
  | quiescent token =>
    obtain ⟨hfree, htoken⟩ := hallow.2
    simp only [notificationCommand, wp_bind, wp_pure]
    refine wp_notificationIoctl d (fun _ => h) fun bridges => ?_
    refine wp_mono (ioctlQuiescent_ledger d h hfree htoken) ?_
    rintro (_ | _) _ l' ⟨hnone, hsome⟩
    · exact hnone rfl
    · have hk : k.ioctl fd (.quiescent token) =
          { k with tokens := Function.update k.tokens token none } := by
        have hfds : (k.ioctl fd (.quiescent token)).fds = k.fds :=
          Outside.ioctl_fds (fun object => by cases object <;> rfl) k fd
        calc k.ioctl fd (.quiescent token)
            = ⟨k.fresh, (k.ioctl fd (.quiescent token)).fds, k.maps,
                Function.update k.tokens token none⟩ := rfl
          _ = { k with tokens := Function.update k.tokens token none } := by rw [hfds]
      show Agrees (k.ioctl fd (.quiescent token)) l'
      rw [hk]
      exact hsome rfl
  -- other commands have nothing to do with notifications
  | _ => exact h

/-- The driver simulates what the service sees of Linux. -/
theorem overNotifications_simulates (route : Fd → Option Device) :
    Program.Simulates (overNotifications route) linux ledger fun k _ l => Agrees k l := by
  intro c k bridges l h hallow
  -- a call that goes on to Linux
  have hpassed (c : Call) (hadmission : ∀ fd grant, c ≠ .ioAdmit fd grant)
      (hquiescent : ∀ fd token, c ≠ .ioctl fd (.quiescent token)) :
      (passed c).wp ledger (fun r _ l' => True ∧ Agrees (k.next c r) l') bridges l :=
    ⟨trivial, fun r _ => ⟨trivial, h.passed r hadmission hquiescent⟩⟩
  cases c with
  | ioAdmit fd grant =>
    simp only [overNotifications, routedCall]
    -- the descriptor is not that of a device
    cases route fd with
    | none => exact ⟨trivial, h⟩
    | some d =>
      refine wp_notificationIoctl d (fun _ => ⟨trivial, h⟩) fun bridges => ?_
      refine wp_mono (ioctlAdmit_ledger d grant h hallow.2) ?_
      rintro (_ | n) _ l' ⟨hnone, hsome⟩
      · exact ⟨trivial, hnone rfl⟩
      · exact ⟨trivial, hsome n rfl⟩
  | extent fd index =>
    simp only [overNotifications, routedCall]
    cases route fd with
    | none => exact ⟨trivial, h⟩
    | some d =>
      refine wp_mono ((notificationIoctl_idle d (ioctlExtent_idle d index)).wp bridges l) ?_
      rintro r _ _ rfl
      exact ⟨trivial, h⟩
  | ioctl fd command =>
    simp only [overNotifications, routedCall]
    cases route fd with
    | none =>
      dsimp only
      -- a command for a device needs its descriptor
      split
      next => exact ⟨trivial, h⟩
      next hcommand =>
        refine hpassed _ (by simp) fun fd' token hc => hcommand ?_
        rw [(Call.ioctl.inj hc).2]
        rfl
    | some d =>
      exact wp_mono (notificationCommand_ledger d fd command h hallow) fun _ _ _ h => ⟨trivial, h⟩
  | _ => exact hpassed _ (by simp) (by simp)

/-! ## Runs over the driver -/

/-- Which device's route a descriptor is. -/
def Setup.route (setup : Setup) (fd : Fd) : Option Device :=
  if setup.backend.disk.notification = some fd then some .storage
  else if setup.backend.net.notification = some fd then some .network
  else none

/-- A run of the service over the notification driver: its result, the bridges it leaves and
the calls below the driver. -/
def Setup.overDriver {α : Type} (setup : Setup) (bridges : Bridges) (env : Environment Bus)
    (p : Program Sys α) : (α × Bridges) × List (Event Bus) :=
  ((p.handle (overNotifications setup.route)).run bridges).exec env []

/-- The ledger when the control loop starts. -/
def Setup.ledger (setup : Setup) : Ledger := { outside := setup.outside }

/-- Every admitted token is held, or was retired exactly once. -/
structure Accounted (b : Backend) (l : Ledger) : Prop where
  admitted : ∀ token, l.admitted token = true →
    b.token = token ∧ l.retirements token = 0 ∨ b.token ≠ token ∧ l.retirements token = 1
  never : ∀ token, l.admitted token = false → l.retirements token = 0
  held : b.token ≠ 0 → l.admitted b.token = true

theorem Custody.accounted {b : Backend} {k : Outside} {l : Ledger} (h : Custody b k)
    (hl : Agrees k l) : Accounted b l where
  admitted token hadmitted := by
    rcases Nat.le_one_iff_eq_zero_or_eq_one.mp (hl.once token) with hzero | hone
    · have hheld : k.tokens token = some () := (hl.tokens token).mpr ⟨hadmitted, hzero⟩
      obtain ⟨_, hslot⟩ := h.holds.tokens.owned token () hheld
      split at hslot
      · cases hslot
      · exact .inl ⟨(Prod.mk.inj (Option.some.inj hslot)).1, hzero⟩
    · refine .inr ⟨fun htoken => ?_, hone⟩
      have hnonzero : token ≠ 0 := by
        rintro rfl
        rw [hl.zero] at hadmitted
        cases hadmitted
      have hheld : k.tokens token = some () :=
        h.holds.tokens.live () token () (by rw [htoken, if_neg hnonzero])
      rw [((hl.tokens token).mp hheld).2] at hone
      cases hone
  never := hl.never
  held htoken := by
    have hheld : k.tokens b.token = some () :=
      h.holds.tokens.live () b.token () (by rw [if_neg htoken])
    exact ((hl.tokens b.token).mp hheld).1

theorem Setup.agrees (setup : Setup) : Agrees setup.outside setup.ledger where
  alike := .refl _
  tokens _ := by
    constructor
    · intro h
      cases h
    · intro h
      cases h.1
  once _ := Nat.zero_le 1
  never _ _ := rfl
  zero := rfl

/-- What a run does first does not depend on what it does next. -/
theorem overDriver_bind {α β : Type} (setup : Setup) (bridges : Bridges) (env : Environment Bus)
    (p : Program Sys α) (f : α → Program Sys β) : ∃ es,
      (setup.overDriver bridges env (p >>= f)).2 = (setup.overDriver bridges env p).2 ++ es := by
  unfold Setup.overDriver
  rw [Program.handle_bind, StateT.run_bind, Program.exec_bind]
  exact ⟨_, rfl⟩

/-- Whatever keeps custody over Linux keeps account of the tokens over the driver. -/
theorem overDriver_accounted {α : Type} (setup : Setup) (bridges : Bridges) (env : Environment Bus)
    {p : Program Sys α} {backend : α → Backend}
    (hp : p.wp linux (fun a k => Custody (backend a) k) setup.outside)
    (hhost : ledger.Assumed setup.ledger (setup.overDriver bridges env p).2) :
    ledger.Obeyed setup.ledger (setup.overDriver bridges env p).2 ∧
      Accounted (backend (setup.overDriver bridges env p).1.1)
        (ledger.after setup.ledger (setup.overDriver bridges env p).2) := by
  have hhandled := Program.wp_handle (s := bridges) (overNotifications_simulates setup.route) hp
    setup.agrees
  obtain ⟨hobeyed, k, hcustody, hagrees⟩ := Program.wp_exec _ _ hhandled hhost
  exact ⟨hobeyed, hcustody.accounted hagrees⟩

/-- The token ledger. The service runs over the notification driver, its calls and the driver's
fail as they may, and the host admits a token at most once. Then between any two records, and
at the exit, every token the host has admitted is held by the backend and not retired, or not
held and retired exactly once; a token that was not admitted is never retired. Every
retirement write is for a token that was admitted and not yet retired, at a time when nothing
of the guest's memory is mapped or open. -/
theorem tokens_accounted (setup : Setup) (bridges : Bridges) (env : Environment Bus)
    (inbox : List (Bytes × Taken))
    (hhost : ledger.Assumed setup.ledger
      (setup.overDriver bridges env (serviceMain setup inbox)).2) :
    Accounted (setup.overDriver bridges env (serve setup.serving inbox)).1.1.2.backend
      (ledger.after setup.ledger (setup.overDriver bridges env (serve setup.serving inbox)).2) ∧
    Accounted (setup.overDriver bridges env (serviceMain setup inbox)).1.1.2
      (ledger.after setup.ledger (setup.overDriver bridges env (serviceMain setup inbox)).2) ∧
    ∀ pre d token r post,
      (setup.overDriver bridges env (serviceMain setup inbox)).2 =
        pre ++ ⟨.writeq d 0x20 token, r⟩ :: post →
      (ledger.after setup.ledger pre).admitted token = true ∧
      (ledger.after setup.ledger pre).retirements token = 0 ∧
      (ledger.after setup.ledger pre).outside.Free := by
  obtain ⟨hobeyed, hended⟩ := overDriver_accounted setup bridges env
    (serviceMain_custody setup inbox) hhost
  refine ⟨?_, hended, fun pre d token r post hes => ?_⟩
  · obtain ⟨es, hes⟩ := overDriver_bind setup bridges env (serve setup.serving inbox) fun r =>
      releaseMemory.run r.2.backend
    have hserve : ledger.Assumed setup.ledger
        (setup.overDriver bridges env (serve setup.serving inbox)).2 :=
      (ledger.assumed_append.mp (hes ▸ hhost)).1
    exact (overDriver_accounted setup bridges env (serve_custody setup.custody inbox) hserve).2
  · rw [hes] at hobeyed
    exact Contract.Obeyed.allows ledger hobeyed rfl

/-! ### A grant that is rolled back -/

/-- The host admits every token for one page in one extent; Linux itself refuses every call. -/
def grantHost : Environment Bus := fun _ c =>
  match c with
  | .linux c => c.refused
  | .dead _ => false
  | .copyFromUser | .copyToUser => Outcome.ok
  | .readq _ offset =>
    (if offset = 0x38 then 4096 else if offset = 0x48 then 1 else 0 : UInt64)
  | .readl _ _ => (0 : UInt32)
  | .eventfdCtxFdget _ | .eventfdFget _ | .eventfdCtxFileget _ => (none : Option Nat)
  | .eventfdCtxDoRead _ => (0 : UInt64)
  | .vfsPoll _ => (⟨false, false⟩ : Poll)
  | .writeq _ _ _ | .eventfdCtxPut _ | .eventfdCtxRemoveWaitQueue _ | .fput _ | .enableIrq _
  | .disableIrq _ => ()

/-- A client with a network device only. -/
def grantSetup : Setup where
  memoryPath := "/dev/hyper-memory"
  role := .client none (some ⟨"br0", List.replicate 6 2, rfl, 3⟩) (by simp)

/-- A request of binding 1 and epoch 1. -/
def request (operation : UInt16) (transaction : UInt64) (body : Bytes) : Bytes :=
  (Header.mk hyperIoMagic hyperIoVersion operation (.ofNat (40 + body.length)) 0 1 1
    transaction).encode ++ body

/-- `NETWORK_HELLO`, then `PREPARE_MEMORY` of one page with token 7. -/
def grantInbox : List (Bytes × Taken) :=
  [(request 7 1 [], .written),
    (request 5 2 (htole64 0 ++ htole64 0 ++ htole64 4096 ++ htole64 7), .written)]

/-- A token that was admitted, and whose grant could not be mapped, is accounted for. -/
theorem tokens_accounted_rollback :
    (ledger.after grantSetup.ledger
      (grantSetup.overDriver (fun _ => {}) grantHost
        (serviceMain grantSetup grantInbox)).2).admitted
        7 = true ∧
    Accounted
      (grantSetup.overDriver (fun _ => {}) grantHost (serviceMain grantSetup grantInbox)).1.1.2
      (ledger.after grantSetup.ledger
        (grantSetup.overDriver (fun _ => {}) grantHost (serviceMain grantSetup grantInbox)).2) :=
  ⟨by decide +kernel,
    (tokens_accounted grantSetup (fun _ => {}) grantHost grantInbox (by decide +kernel)).2.1⟩

end HyperIoVm
