import Mathlib.Data.List.FinRange
import HyperIoVm.Effects.Handler
import HyperIoVm.Sys

/-!
# The notification driver (`modules/io-bridge/hyper_io_bridge.c`)

The ioctls of a client's notification routes, over the registers of the route's device and
the kernel functions the driver calls. `overNotifications` implements the service's calls:
those on a notification route by the driver, all others by Linux itself.
-/

namespace HyperIoVm

open Effects

/-! ## The driver's environment -/

/-- What the service's calls become: calls of Linux itself, the driver's register accesses and
its calls into the kernel. -/
inductive BusCall where
  | linux (c : Call)
  /-- `bridge->dead`, which removing the device sets. -/
  | dead (d : Device)
  | copyFromUser
  | copyToUser
  | writeq (d : Device) (offset : Nat) (value : UInt64)
  | readq (d : Device) (offset : Nat)
  | readl (d : Device) (offset : Nat)
  | eventfdCtxFdget (fd : Int)
  | eventfdFget (fd : Int)
  | eventfdCtxFileget (file : Nat)
  | eventfdCtxPut (event : Nat)
  | eventfdCtxRemoveWaitQueue (event : Nat)
  | eventfdCtxDoRead (event : Nat)
  | fput (file : Nat)
  | vfsPoll (file : Nat)
  | enableIrq (d : Device)
  | disableIrq (d : Device)

/-- What `vfs_poll` reports: whether the file has a wait queue, and whether it is readable. -/
structure Poll where
  queued : Bool
  ready : Bool
  deriving DecidableEq, Repr

def BusCall.Reply : BusCall → Type
  | .linux c => c.Reply
  | .dead _ => Bool
  | .copyFromUser | .copyToUser => Outcome
  | .readq _ _ => UInt64
  | .readl _ _ => UInt32
  | .eventfdCtxFdget _ | .eventfdFget _ | .eventfdCtxFileget _ => Option Nat
  | .eventfdCtxDoRead _ => UInt64
  | .vfsPoll _ => Poll
  | .writeq _ _ _ | .eventfdCtxPut _ | .eventfdCtxRemoveWaitQueue _ | .fput _ | .enableIrq _
  | .disableIrq _ => Unit

/-- The interface below the notification driver. -/
def Bus : Interface := ⟨BusCall, BusCall.Reply⟩

/-- `struct call_binding`. -/
structure CallBinding where
  file : Option Nat := none
  event : Option Nat := none
  queue : Bool := false
  epoch : UInt32 := 0
  deriving DecidableEq, Repr

/-- `struct bridge`, as far as its ioctls use it. -/
structure Bridge where
  mailbox : Bool := false
  network : Bool := false
  kick : Fin 6 → Option Nat := fun _ => none
  call : Fin 6 → CallBinding := fun _ => {}
  bound : Bool := false
  irqEnabled : Bool := false
  deriving DecidableEq

/-- The bridge of each device. -/
abbrev Bridges := Device → Bridge

/-- A computation of the driver. -/
abbrev Driver := Routine Bus Bridges

namespace Driver

def call (c : BusCall) : Driver c.Reply := Routine.perform (I := Bus) c

def copyFromUser : Driver Outcome := call .copyFromUser
def copyToUser : Driver Outcome := call .copyToUser
def writeq (d : Device) (offset : Nat) (value : UInt64) : Driver Unit :=
  call (.writeq d offset value)
def readq (d : Device) (offset : Nat) : Driver UInt64 := call (.readq d offset)
def readl (d : Device) (offset : Nat) : Driver UInt32 := call (.readl d offset)
def dead (d : Device) : Driver Bool := call (.dead d)
def eventfdCtxFdget (fd : Int) : Driver (Option Nat) := call (.eventfdCtxFdget fd)
def eventfdFget (fd : Int) : Driver (Option Nat) := call (.eventfdFget fd)
def eventfdCtxFileget (file : Nat) : Driver (Option Nat) := call (.eventfdCtxFileget file)
def eventfdCtxPut (event : Nat) : Driver Unit := call (.eventfdCtxPut event)
def eventfdCtxRemoveWaitQueue (event : Nat) : Driver Unit := call (.eventfdCtxRemoveWaitQueue event)
def eventfdCtxDoRead (event : Nat) : Driver UInt64 := call (.eventfdCtxDoRead event)
def fput (file : Nat) : Driver Unit := call (.fput file)
def vfsPoll (file : Nat) : Driver Poll := call (.vfsPoll file)
def enableIrq (d : Device) : Driver Unit := call (.enableIrq d)
def disableIrq (d : Device) : Driver Unit := call (.disableIrq d)

/-- `if (pointer) f(pointer)`. -/
def ifHeld : Option Nat → (Nat → Driver Unit) → Driver Unit
  | none, _ => pure ()
  | some held, f => f held

def modifyBridge (d : Device) (f : Bridge → Bridge) : Driver Unit :=
  modify fun bridges => Function.update bridges d (f (bridges d))

def modifyCall (d : Device) (i : Fin 6) (f : CallBinding → CallBinding) : Driver Unit :=
  modifyBridge d fun bridge =>
    { bridge with call := Function.update bridge.call i (f (bridge.call i)) }

end Driver

open Driver

/-! ## Binding of eventfds -/

/-- `notify_call`. -/
def notifyCall (d : Device) (event : Nat) (epoch : UInt32) : Driver Unit := do
  if (← eventfdCtxDoRead event) ≠ 0 then
    writeq d 0x18 ((epoch.toUInt64 <<< 32) ||| 1)

/-- One round of the loop of `unbind`. -/
def unbindQueue (d : Device) (i : Fin 6) : Driver Unit := do
  let bridge := (← get) d
  let c := bridge.call i
  ifHeld (if c.queue then c.event else none) eventfdCtxRemoveWaitQueue
  ifHeld c.event eventfdCtxPut
  ifHeld c.file fput
  ifHeld (bridge.kick i) eventfdCtxPut
  modifyCall d i fun c => { c with file := none, event := none, queue := false }
  modifyBridge d fun bridge => { bridge with kick := Function.update bridge.kick i none }

/-- The interrupt is off before the references to its eventfds go. -/
def silenceIrq (d : Device) : Driver Unit := do
  if ((← get) d).irqEnabled then
    disableIrq d
    modifyBridge d fun bridge => { bridge with irqEnabled := false }

/-- `unbind`. -/
def unbind (d : Device) : Driver Unit := do
  silenceIrq d
  forM (List.finRange 6) (unbindQueue d)
  modifyBridge d fun bridge => { bridge with bound := false }

/-- `hyper_io_eventfds_valid`. -/
def hyperIoEventfdsValid (fds : Eventfds) (network : Bool) : Bool :=
  let required := if network then hyperIoNetworkQueues else 3
  let maximum := if network then hyperIoNetworkQueues else hyperIoQueues
  (List.finRange 6).all fun i =>
    let absent := fds.kick i == -1 && fds.call i == -1
    if i.val ≥ maximum || (i.val ≥ required && absent) then absent
    else fds.kick i ≥ 0 && fds.call i ≥ 0

/-- The call half of a round of the binding loop. -/
def bindCall (d : Device) (fds : Eventfds) (i : Fin 6) : Driver Outcome := do
  match ← eventfdFget (fds.call i) with
  | none => return .failed
  | some file => do
    modifyCall d i fun c => { c with file := some file }
    match ← eventfdCtxFileget file with
    | none => return .failed
    | some event => do
      modifyCall d i fun c => { c with event := some event, epoch := fds.epoch }
      let poll ← vfsPoll file
      modifyCall d i fun c => { c with queue := poll.queued }
      if !poll.queued then return .failed
      let _ ← (if poll.ready then notifyCall d event fds.epoch else pure ())
      return .ok

/-- One round of the binding loop of `notification_ioctl`. -/
def bindQueue (d : Device) (fds : Eventfds) (i : Fin 6) : Driver Outcome := do
  if fds.kick i = -1 then return .ok
  match ← eventfdCtxFdget (fds.kick i) with
  | none => return .failed
  | some kick => do
    modifyBridge d fun bridge => { bridge with kick := Function.update bridge.kick i (some kick) }
    bindCall d fds i

/-- The binding loop of `notification_ioctl`. -/
def bindQueues (d : Device) (fds : Eventfds) : List (Fin 6) → Driver Outcome
  | [] => pure .ok
  | i :: is => do
    if (← bindQueue d fds i) = .failed then return .failed
    bindQueues d fds is

/-! ## The commands -/

/-- What every ioctl of a notification route begins with; `none` is an error code. -/
def notificationIoctl {α : Type} (d : Device) (command : Driver (Option α)) :
    Driver (Option α) := do
  if ((← get) d).mailbox then return none
  if ← dead d then return none
  command

/-- The immutable facts of the admitted grant are those the caller claims. -/
def grantMatches (d : Device) (grant : Admission) : Driver Bool := do
  if (← readq d 0x30) ≠ grant.guestBase then return false
  return (← readq d 0x38) == grant.length

/-- The number of extents, if it is plausible and can be copied out. -/
def reportGrant (d : Device) (grant : Admission) : Driver (Option UInt64) := do
  let extentCount ← readq d 0x48
  if extentCount = 0 ∨ extentCount > grant.length / 4096 then return none
  if (← copyToUser) = .failed then return none
  return some extentCount

/-- `HYPER_IO_ADMIT`: admission binds the one-use token to this route. A grant that was
admitted but does not match, or cannot be reported, is retired before it is rejected. -/
def ioctlAdmit (d : Device) (grant : Admission) : Driver (Option UInt64) := do
  if ((← get) d).bound then return none
  if (← copyFromUser) = .failed then return none
  if grant.token = 0 then return none
  writeq d 0x28 grant.token
  if (← readq d 0x40) ≠ 0 then return none
  if !(← grantMatches d grant) then
    writeq d 0x20 grant.token
    return none
  match ← reportGrant d grant with
  | none => do
    writeq d 0x20 grant.token
    return none
  | some extentCount => return some extentCount

/-- `HYPER_IO_EXTENT`. -/
def ioctlExtent (d : Device) (index : UInt64) : Driver (Option Extent) := do
  if ((← get) d).bound then return none
  if (← copyFromUser) = .failed then return none
  writeq d 0x50 index
  if (← readq d 0x70) ≠ 0 then return none
  let aliasAddr ← readq d 0x58
  let offset ← readq d 0x60
  let length ← readq d 0x68
  if (← copyToUser) = .failed then return none
  return some { aliasAddr, offset, length }

/-- `HYPER_IO_QUIESCENT`. -/
def ioctlQuiescent (d : Device) (token : UInt64) : Driver (Option Unit) := do
  if ((← get) d).bound then return none
  if (← copyFromUser) = .failed then return none
  if token = 0 then return none
  writeq d 0x20 token
  return some ()

/-- `HYPER_IO_UNBIND`. -/
def ioctlUnbind (d : Device) : Driver (Option Unit) := do
  unbind d
  return some ()

/-- `HYPER_IO_BIND`. -/
def ioctlBind (d : Device) (fds : Eventfds) : Driver (Option Unit) := do
  let bridge := (← get) d
  if bridge.bound then return none
  if (← copyFromUser) = .failed then return none
  if fds.epoch == 0 || fds.reserved != 0 || !hyperIoEventfdsValid fds bridge.network then
    return none
  if (← readl d 0x08) ≠ fds.epoch then return none
  if (← readl d 0x0c) ≠ 0 then return none
  if (← bindQueues d fds (List.finRange 6)) = .failed then
    unbind d
    return none
  modifyBridge d fun bridge => { bridge with bound := true, irqEnabled := true }
  enableIrq d
  return some ()

/-! ## The service over the driver -/

/-- A call that Linux answers itself. -/
def passed (c : Call) : Driver c.Reply := call (.linux c)

def outcome (r : Option Unit) : Outcome := if r.isSome then .ok else .failed

/-- `notification_ioctl` for the commands that only succeed or fail; it answers any other command
with `ENOTTY`. -/
def notificationCommand (d : Device) : Command → Driver Outcome
  | .bind fds => return outcome (← notificationIoctl d (ioctlBind d fds))
  | .unbind => return outcome (← notificationIoctl d (ioctlUnbind d))
  | .quiescent token => return outcome (← notificationIoctl d (ioctlQuiescent d token))
  | _ => pure .failed

/-- The commands that only the notification driver knows. -/
def Command.isNotification : Command → Bool
  | .bind _ | .unbind | .quiescent _ => true
  | _ => false

/-- The service's calls, with the driver behind the descriptors that `route` names. A command of
the driver on any other descriptor fails there (`ENOTTY`). -/
def routedCall (route : Fd → Option Device) (c : Call) : Driver c.Reply :=
  match c with
  | .ioAdmit fd grant =>
    match route fd with
    | none => pure none
    | some d => notificationIoctl d (ioctlAdmit d grant)
  | .extent fd index =>
    match route fd with
    | none => pure none
    | some d => notificationIoctl d (ioctlExtent d index)
  | .ioctl fd command =>
    match route fd with
    | none => if command.isNotification then pure .failed else passed (.ioctl fd command)
    | some d => notificationCommand d command
  | c => passed c

def overNotifications (route : Fd → Option Device) : Handler Sys Bus Bridges := routedCall route

end HyperIoVm
