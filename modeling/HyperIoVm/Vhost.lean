import HyperIoVm.BlockTarget

/-!
# vhost endpoints (`service/vhost.c`)

Validation of a guest's rings, configuration of a vhost device over them, and the drains.
`configureVhost` answers `busy` or `invalid` before it has touched anything; every later
failure leaves a partly configured endpoint, which its caller quiesces.
-/

namespace HyperIoVm

open Effects

def version1 : UInt64 := 0x100000000

/-- `vhost_ioctl`: an ioctl on the device's vhost descriptor, with a diagnostic on failure. -/
def vhostIoctl (d : Device) (command : Command) : Service Outcome := do
  if (← ioctl ((← get).endpoint d).fd command) = .ok then return .ok
  diagnostic
  return .failed

/-! ## Closing and draining -/

/-- The unbinding step of `endpoint_close`. -/
def endpointUnbind (d : Device) : Service Outcome := do
  let e := (← get).endpoint d
  if !e.bound then return .ok
  if (← ioctl e.notification .unbind) = .failed then return .failed
  modifyEndpoint d fun e => { e with bound := false }
  return .ok

/-- One round of the last loop of `endpoint_close`. -/
def closeQueue (d : Device) (i : Fin 6) : Service Unit := do
  let e := (← get).endpoint d
  closeIfOpen (e.kick i)
  closeIfOpen (e.call i)
  modifyEndpoint d fun e =>
    { e with kick := Function.update e.kick i none, call := Function.update e.call i none }

/-- `endpoint_close`: the caller has drained the device; producers go before callbacks. -/
def endpointClose (d : Device) : Service Outcome := do
  closeIfOpen ((← get).endpoint d).fd
  modifyEndpoint d fun e => { e with fd := none }
  if (← endpointUnbind d) = .failed then return .failed
  forM (List.finRange 6) (closeQueue d)
  return .ok

/-- The drain of `quiesce_disk`: `CLEAR_ENDPOINT` synchronously drains SCSI commands. -/
def drainDisk : Service Outcome := do
  let b ← get
  if !b.disk.attached then return .ok
  if (← ioctl b.disk.fd (.clearEndpoint b.wwpn)) = .failed then return .failed
  modifyEndpoint .storage fun e => { e with attached := false }
  return .ok

/-- `quiesce_disk`. -/
def quiesceDisk : Service Outcome := do
  if (← drainDisk) = .failed then return .failed
  endpointClose .storage

/-! ## Ring validation -/

/-- A ring area `[start, stop)` in the service's address space. -/
structure Area where
  start : UInt64
  stop : UInt64
  deriving DecidableEq, Repr

/-- `(uintptr_t)b->memory`; `MAP_FAILED` is `(void *)-1`. -/
def Backend.memoryAddress (b : Backend) : UInt64 := b.memory.getD 0xffffffffffffffff

/-- `queue_address`. -/
def queueAddress (b : Backend) (gpa bytes alignment : UInt64) : Option UInt64 :=
  if gpa < b.region.guestBase || gpa % alignment != 0 || bytes > b.region.length ||
      gpa - b.region.guestBase > b.region.length - bytes then none
  else some (b.memoryAddress + (gpa - b.region.guestBase))

/-- One part of a queue: its area, unless it is outside the region or meets an earlier one. -/
def validateArea (b : Backend) (gpa bytes alignment : UInt64) (areas : List Area) :
    Option (List Area) :=
  match queueAddress b gpa bytes alignment with
  | none => none
  | some start =>
    let stop := start + bytes
    if areas.any fun old => start < old.stop && old.start < stop then none
    else some (areas ++ [⟨start, stop⟩])

/-- One queue: three more areas, zero ones for an optional queue that is not configured. -/
def validateQueue (b : Backend) (required i : Nat) (q : Queue) (areas : List Area) :
    Option (List Area) :=
  if q.size == 0 && i ≥ required && q.reserved == 0 && q.descriptor == 0 && q.available == 0 &&
      q.used == 0 then some (areas ++ List.replicate 3 ⟨0, 0⟩)
  else if q.size == 0 || q.size > 128 || q.size &&& (q.size - 1) != 0 || q.reserved != 0 then none
  else
    let size := q.size.toUInt64
    (validateArea b q.descriptor (16 * size) 16 areas).bind fun areas =>
      (validateArea b q.available (6 + 2 * size) 2 areas).bind fun areas =>
        validateArea b q.used (6 + 8 * size) 4 areas

/-- The validation loop of `configure_vhost`, from queue `i` on. -/
def validateQueues (b : Backend) (required : Nat) :
    (i : Nat) → List Queue → List Area → Option (List Area)
  | _, [], areas => some areas
  | i, q :: qs, areas =>
    (validateQueue b required i q areas).bind fun areas =>
      validateQueues b required (i + 1) qs areas

/-! ## Configuration -/

/-- The address vhost is given for part `part` of queue `i`. -/
def ringStart (areas : List Area) (i part : Nat) : UInt64 :=
  (areas.getD (3 * i + part) ⟨0, 0⟩).start

/-- Describe queue `i`'s ring to vhost. -/
def installRings (d : Device) (areas : List Area) (i : Fin 6) (q : Queue) : Service Outcome :=
  firstFailure
    [vhostIoctl d (.setVringNum i q.size),
      vhostIoctl d (.setVringAddr i (ringStart areas i 0) (ringStart areas i 1)
        (ringStart areas i 2)),
      vhostIoctl d (.setVringBase i 0)]

/-- Hand queue `i`'s eventfds to vhost and to the record for the notification driver. -/
def installEventfds (d : Device) (i : Fin 6) (bridge : Eventfds) (kick call : Fd) :
    Service (Option Eventfds) := do
  if (← vhostIoctl d (.setVringKick i kick)) = .failed then return none
  if (← vhostIoctl d (.setVringCall i call)) = .failed then return none
  return some { bridge with
    kick := Function.update bridge.kick i (kick : Int),
    call := Function.update bridge.call i (call : Int) }

/-- One round of the installation loop of `configure_vhost`; `none` is `BACKEND_FAILURE`. -/
def installQueue (d : Device) (areas : List Area) (i : Fin 6) (q : Queue) (bridge : Eventfds) :
    Service (Option Eventfds) := do
  if q.size = 0 then return some bridge
  if (← installRings d areas i q) = .failed then return none
  let kick ← eventfd
  modifyEndpoint d fun e => { e with kick := Function.update e.kick i kick }
  match kick with
  | none => do diagnostic; return none
  | some kick => do
    let call ← eventfd
    modifyEndpoint d fun e => { e with call := Function.update e.call i call }
    match call with
    | none => do diagnostic; return none
    | some call => installEventfds d i bridge kick call

/-- The installation loop of `configure_vhost`. -/
def installQueues (d : Device) (areas : List Area) :
    List (Fin 6 × Queue) → Eventfds → Service (Option Eventfds)
  | [], bridge => pure (some bridge)
  | (i, q) :: qs, bridge => do
    match ← installQueue d areas i q bridge with
    | none => return none
    | some bridge => installQueues d areas qs bridge

/-- The ioctls of `configure_vhost` on the open descriptor that concern no queue. -/
def setupVhost (d : Device) (features : UInt64) : Service Outcome := do
  let b ← get
  firstFailure ((if d = .storage then [vhostIoctl d (.setResources b.scsi)] else []) ++
    [vhostIoctl d .setOwner,
      vhostIoctl d (.setFeatures features),
      vhostIoctl d (.setMemTable b.region.guestBase b.region.length b.memoryAddress)])

/-- Everything `configure_vhost` does with the open vhost descriptor. -/
def installVhost (d : Device) (epoch : UInt32) (features : UInt64) (queues : List Queue)
    (areas : List Area) : Service Status := do
  if (← setupVhost d features) = .failed then return .backendFailure
  match ← installQueues d areas ((List.finRange 6).zip queues) { epoch } with
  | none => return .backendFailure
  | some bridge =>
    let bound ← ioctl ((← get).endpoint d).notification (.bind bridge)
    if bound = .failed then
      diagnostic
      return .backendFailure
    modifyEndpoint d fun e => { e with bound := true }
    return .ok

/-- `configure_vhost`, for the first `count` of the queues. -/
def configureVhost (d : Device) (epoch : UInt32) (features : UInt64) (queues : List Queue)
    (count required : Nat) : Service Status := do
  let b ← get
  let e := b.endpoint d
  if e.fd.isSome || e.bound || e.attached then return .busy
  if b.memory.isNone || b.region.length == 0 || e.notification.isNone || epoch == 0 ||
      count > hyperIoQueues then return .invalid
  let queues := queues.take count
  match validateQueues b required 0 queues [] with
  | none => return .invalid
  | some areas =>
    match ← openNode (.vhost d) with
    | .error _ => do diagnostic; return .backendFailure
    | .ok fd => do
      modifyEndpoint d fun e => { e with fd := some fd }
      installVhost d epoch features queues areas

/-! ## Storage activation -/

/-- The last part of `activate_disk`: attach the endpoint, or quiesce what was configured. -/
def attachDisk (status : Status) : Service Status := do
  let b ← get
  let attached ← (if status = .ok then ioctl b.disk.fd (.setEndpoint b.wwpn) else pure .failed)
  if attached = .ok then
    modifyEndpoint .storage fun e => { e with attached := true }
    return .ok
  return if (← quiesceDisk) = .failed then .quiescenceFailed else .backendFailure

/-- `activate_disk`. -/
def activateDisk (message : Activate) : Service Status := do
  let b ← get
  if b.wwpn = "" then return .unsupported
  if !(← blockTargetReady) then return .busy
  if message.features ≠ version1 then return .invalid
  let queues := b.scsi.requestQueues.toNat + 2
  -- unadvertised queues must remain absent, reserved and address fields included
  if (message.queues.drop queues).any (· ≠ Queue.zero) then return .invalid
  let status ← configureVhost .storage message.header.epoch.toUInt32 version1 message.queues
    queues 3
  if status = .busy ∨ status = .invalid then return status
  attachDisk status

end HyperIoVm
